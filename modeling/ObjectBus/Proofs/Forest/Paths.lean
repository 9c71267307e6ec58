import ObjectBus.Proofs.Forest.Descendants

/-!
# Paths

A path depends on nothing but the names and parents on the way up. So what leaves those alone leaves
paths alone: changes elsewhere at a node, growing, and for nodes that are not below it also
uprooting a node. `Forest.names` are the names themselves, before the empty ones are skipped.

When a node below a parent is uprooted, the nodes below it lose its name and no other
(`names_uproot_of_below`). When a root is uprooted, even the nodes below it keep their paths
(`path_uproot_root`): its children take its name over, and the text is the same whether two names
are joined with a slash before or after the names below are joined to them.
-/

set_option autoImplicit false

namespace ObjectBus

/-- What a node contributes to paths, and where paths go on. -/
def Node.place (x : Node) : String × Option NodeId := (x.name, x.parent)

namespace Forest

/-- The part of a path that one name makes. -/
def pathPart (name : String) : List String := if name.isEmpty then [] else [name]

theorem namesUp_root {f : Forest} {n : NodeId} {x : Node} (h : f.get? n = some x)
    (hp : x.parent = none) : f.namesUp n = pathPart x.name := by
  rw [namesUp, h]
  simp only [hp]
  rfl

theorem namesUp_child {f : Forest} (hf : f.WellFormed) {n p : NodeId} {x : Node}
    (h : f.get? n = some x) (hp : x.parent = some p) :
    f.namesUp n = pathPart x.name ++ f.namesUp p := by
  rw [namesUp, h]
  simp only [hp, if_pos (hf.parent h hp).1]
  rfl

/-! ## The names on the way down -/

/-- **The names of a node**: those from its root down to it, empty ones included. -/
def names (f : Forest) (n : NodeId) : List String :=
  match f.get? n with
  | none => []
  | some node =>
      match node.parent with
      | none => [node.name]
      | some p => if p < n then f.names p ++ [node.name] else [node.name]
termination_by n

theorem names_none {f : Forest} {n : NodeId} (h : f.get? n = none) : f.names n = [] := by
  rw [names, h]

theorem names_root {f : Forest} {n : NodeId} {x : Node} (h : f.get? n = some x)
    (hp : x.parent = none) : f.names n = [x.name] := by
  rw [names, h]
  simp only [hp]

theorem names_child {f : Forest} (hf : f.WellFormed) {n p : NodeId} {x : Node}
    (h : f.get? n = some x) (hp : x.parent = some p) :
    f.names n = f.names p ++ [x.name] := by
  rw [names, h]
  simp only [hp, if_pos (hf.parent h hp).1]

/-- Paths skip the empty names. -/
theorem namesUp_eq_names (f : Forest) (n : NodeId) :
    f.namesUp n = ((f.names n).filter fun name => !name.isEmpty).reverse := by
  have hpart : ∀ name : String,
      (if name.isEmpty then [] else [name]) = [name].filter fun name => !name.isEmpty := by
    intro name
    cases h : name.isEmpty <;> simp [h]
  induction n using Nat.strongRecOn with
  | _ n ih =>
      rw [namesUp, names]
      cases hx : f.get? n with
      | none => rfl
      | some x =>
          simp only [hpart]
          cases hp : x.parent with
          | none => cases h : x.name.isEmpty <;> simp [h]
          | some p =>
              by_cases hlt : p < n
              · simp only [hlt, if_true, ih p hlt, List.filter_append, List.reverse_append]
                cases h : x.name.isEmpty <;> simp [h]
              · cases h : x.name.isEmpty <;> simp [hlt, h]

theorem path_eq_names (f : Forest) (n : NodeId) :
    f.path n = "/".intercalate ((f.names n).filter fun name => !name.isEmpty) := by
  rw [path, namesUp_eq_names, List.reverse_reverse]

/-- **Names depend on places only**: where two forests agree on the places of a set of nodes that
is closed under going up, they agree on the names of these nodes. -/
theorem names_congr {f g : Forest} (P : NodeId → Prop)
    (hplace : ∀ m, P m → (g.get? m).map Node.place = (f.get? m).map Node.place)
    (hup : ∀ m x p, P m → f.get? m = some x → x.parent = some p → P p) (m : NodeId) (hm : P m) :
    g.names m = f.names m := by
  induction m using Nat.strongRecOn with
  | _ m ih =>
      cases hx : f.get? m with
      | none =>
          have hy : g.get? m = none := by simpa [hx] using hplace m hm
          rw [names_none hx, names_none hy]
      | some x =>
          obtain ⟨y, hy, hyx⟩ := Option.map_eq_some_iff.1 ((hplace m hm).trans (by rw [hx]; rfl))
          obtain ⟨hname, hparent⟩ := Prod.mk.inj hyx
          cases hp : x.parent with
          | none => rw [names_root hx hp, names_root hy (hparent.trans hp), hname]
          | some p =>
              rw [names, names, hx, hy]
              simp only [hname, hparent, hp]
              split
              · next hlt => rw [ih p hlt (hup m x p hm hx hp)]
              · rfl

theorem path_congr {f g : Forest} {m : NodeId} (h : g.names m = f.names m) :
    g.path m = f.path m := by
  rw [path_eq_names, path_eq_names, h]

theorem KeepsPlace.place {change : Node → Node} (hc : KeepsPlace change) (x : Node) :
    (change x).place = x.place := by
  simp only [Node.place, hc.name, hc.parent]

/-- Forests that agree on all places agree on all paths. -/
theorem path_of_place {f g : Forest}
    (h : ∀ m, (g.get? m).map Node.place = (f.get? m).map Node.place) (m : NodeId) :
    g.path m = f.path m :=
  path_congr (names_congr (fun _ => True) (fun m _ => h m) (fun _ _ _ _ _ _ => trivial) m trivial)

theorem path_adjust (f : Forest) (n : NodeId) {change : Node → Node} (hc : KeepsPlace change)
    (m : NodeId) : (f.adjust n change).path m = f.path m := by
  refine path_of_place (fun m => ?_) m
  rw [get?_adjust]
  split
  · simp [Function.comp_def, hc.place]
  · rfl

theorem path_grow {f : Forest} (hf : f.WellFormed) (name : String) {parent : Option NodeId}
    (hp : ∀ p, parent = some p → (f.get? p).isSome) (servers : List TransportId) {m : NodeId}
    {x : Node} (hx : f.get? m = some x) : (f.grow name parent servers).2.path m = f.path m := by
  refine path_congr (names_congr (fun m => (f.get? m).isSome) ?_ ?_ m
    (by rw [hx]; rfl))
  · intro m hm
    obtain ⟨y, hy⟩ := Option.isSome_iff_exists.1 hm
    rw [get?_grow hf name hp, if_neg (Nat.ne_of_lt (hf.fresh hy)), hy]
    simp only [Option.map_some, Node.place]
    split <;> rfl
  · intro m y p _ hy hyp
    obtain ⟨-, z, hz, -⟩ := hf.parent hy hyp
    rw [hz]
    rfl

/-! ## Uprooting -/

section Uproot

variable {f : Forest} (hf : f.WellFormed) {x : NodeId} {gone : Node} (hx : f.get? x = some gone)

include hf hx

/-- The place of a node that is neither the uprooted one nor one of its children stays. -/
theorem place_uproot {m : NodeId} (hmx : m ≠ x) (hm : m ∉ gone.children) :
    ((f.uproot x gone.name gone.parent gone.children).get? m).map Node.place =
      (f.get? m).map Node.place := by
  rw [get?_uproot hf hx, if_neg hmx]
  cases f.get? m with
  | none => rfl
  | some y => simp [Node.place, movedUp, hm]

/-- **Uprooting moves only what is below.** -/
theorem names_uproot_of_not_below {m : NodeId} (hmx : m ≠ x) (hm : ¬f.Below x m) :
    (f.uproot x gone.name gone.parent gone.children).names m = f.names m := by
  refine names_congr (fun m => m ≠ x ∧ ¬f.Below x m) ?_ ?_ m ⟨hmx, hm⟩
  · rintro m ⟨hmx, hm⟩
    refine place_uproot hf hx hmx fun hc => ?_
    obtain ⟨y, hy, hp⟩ := hf.child hx hc
    exact hm (Below.child hy hp)
  · rintro m y p ⟨-, hm⟩ hy hp
    exact not_below_parent hm hy hp

theorem path_uproot_of_not_below {m : NodeId} (hmx : m ≠ x) (hm : ¬f.Below x m) :
    (f.uproot x gone.name gone.parent gone.children).path m = f.path m :=
  path_congr (names_uproot_of_not_below hf hx hmx hm)

/-- What another node looks like after uprooting. -/
theorem get?_uproot_of_ne {m : NodeId} {y : Node} (hy : f.get? m = some y) (hmx : m ≠ x) :
    (f.uproot x gone.name gone.parent gone.children).get? m = some (movedUp x gone m y) := by
  rw [get?_uproot hf hx, if_neg hmx, hy]
  rfl

/-- A node that is not a child of the uprooted one keeps its name and its parent. -/
theorem movedUp_of_not_child {m p : NodeId} {y : Node} (hy : f.get? m = some y)
    (hp : y.parent = some p) (hpx : p ≠ x) :
    (movedUp x gone m y).name = y.name ∧ (movedUp x gone m y).parent = some p := by
  have hmem : m ∉ gone.children := by
    intro hc
    rw [hf.mem_children_iff hx hy, hp, Option.some.injEq] at hc
    exact hpx hc
  simp [movedUp, hmem, hp]

/-- **Below a parent, uprooting takes one name out of the names below**, and no other. -/
theorem names_uproot_of_below {p : NodeId} (hp : gone.parent = some p) {m : NodeId}
    (hm : f.Below x m) :
    ∃ below, f.names m = f.names p ++ gone.name :: below ∧
      (f.uproot x gone.name gone.parent gone.children).names m = f.names p ++ below := by
  have hf' := hf.uproot hx
  have hpx := (hf.parent hx hp).1
  induction hm with
  | @child c y hy hcp =>
      have hmem := (hf.mem_children_iff hx hy).2 hcp
      have hget := get?_uproot_of_ne hf hx hy (Nat.ne_of_gt (hf.parent hy hcp).1)
      -- the child comes to the parent, whose names stay
      have hstays := names_uproot_of_not_below hf hx (Nat.ne_of_lt hpx) fun hb =>
        Nat.lt_asymm hpx (hb.lt hf)
      refine ⟨[y.name], ?_, ?_⟩
      · rw [names_child hf hy hcp, names_child hf hx hp, List.append_assoc]
        rfl
      · rw [names_child hf' hget (p := p) (by simp [movedUp, hmem, hp]), hstays]
        simp [movedUp, hp]
  | @step c q y hb hy hcq ih =>
      obtain ⟨below, hold, hnew⟩ := ih
      have hqx : q ≠ x := Nat.ne_of_gt (hb.lt hf)
      have hget := get?_uproot_of_ne hf hx hy (Nat.ne_of_gt ((Below.step hb hy hcq).lt hf))
      obtain ⟨hname, hparent⟩ := movedUp_of_not_child hf hx hy hcq hqx
      refine ⟨below ++ [y.name], ?_, ?_⟩
      · rw [names_child hf hy hcq, hold, List.append_assoc]
        rfl
      · rw [names_child hf' hget hparent, hnew, hname, List.append_assoc]

/-- The names above a node below an uprooted root: the name of the root and the name of its child
come together as one, and all names below stay. -/
theorem namesUp_uproot_root (hroot : gone.parent = none) {m : NodeId} (hm : f.Below x m) :
    ∃ below c, f.namesUp m = below ++ (pathPart c ++ pathPart gone.name) ∧
      (f.uproot x gone.name gone.parent gone.children).namesUp m =
        below ++ pathPart (inheritName gone.name c) := by
  have hf' := hf.uproot hx
  induction hm with
  | @child c y hy hp =>
      have hmem := (hf.mem_children_iff hx hy).2 hp
      have hget := get?_uproot_of_ne hf hx hy (Nat.ne_of_gt (hf.parent hy hp).1)
      refine ⟨[], y.name, ?_, ?_⟩
      · rw [namesUp_child hf hy hp, namesUp_root hx hroot]
        rfl
      · rw [namesUp_root hget (by simp [movedUp, hmem, hroot])]
        simp [movedUp, hmem, hroot]
  | @step c p y hb hy hp ih =>
      obtain ⟨below, d, hold, hnew⟩ := ih
      have hpx : p ≠ x := Nat.ne_of_gt (hb.lt hf)
      have hget := get?_uproot_of_ne hf hx hy (Nat.ne_of_gt ((Below.step hb hy hp).lt hf))
      obtain ⟨hname, hparent⟩ := movedUp_of_not_child hf hx hy hp hpx
      refine ⟨pathPart y.name ++ below, d, ?_, ?_⟩
      · rw [namesUp_child hf hy hp, hold, List.append_assoc]
      · rw [namesUp_child hf' hget hparent, hnew, hname, List.append_assoc]

omit hf hx in
/-- Two names joined with a slash read like the two names next to each other. -/
theorem intercalate_inheritName (r c : String) (names : List String) :
    "/".intercalate (pathPart (inheritName r c) ++ names) =
      "/".intercalate (pathPart r ++ (pathPart c ++ names)) := by
  unfold inheritName pathPart
  by_cases hr : r.isEmpty = true
  · simp [hr]
  · by_cases hc : c.isEmpty = true
    · simp [hr, hc]
    · have hne : (r ++ "/" ++ c).isEmpty = false := by simp
      simp only [hr, hc, hne, if_false, Bool.false_eq_true, List.cons_append, List.nil_append]
      rfl

/-- **Uprooting a root moves no path.** -/
theorem path_uproot_root (hroot : gone.parent = none) {m : NodeId} (hmx : m ≠ x) :
    (f.uproot x gone.name gone.parent gone.children).path m = f.path m := by
  by_cases hm : f.Below x m
  · obtain ⟨below, c, hold, hnew⟩ := namesUp_uproot_root hf hx hroot hm
    have hrev : ∀ s, (pathPart s).reverse = pathPart s := by
      intro s
      unfold pathPart
      split <;> rfl
    rw [path, path, hold, hnew]
    simp only [List.reverse_append, hrev, List.append_assoc]
    exact intercalate_inheritName gone.name c below.reverse
  · exact path_uproot_of_not_below hf hx hmx hm

end Uproot

end Forest

end ObjectBus
