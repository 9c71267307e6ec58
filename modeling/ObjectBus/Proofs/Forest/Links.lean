import ObjectBus.Forest
import ObjectBus.Proofs.Entries

/-!
# Parents and children

Every link of the forest is stored twice, with the child and with the parent. `Forest.WellFormed`
says that the two agree: a node names a parent that lists it, once, and a parent lists the nodes
that name it. A parent is older than its children, so its id is smaller.

Growing keeps this, and so does uprooting a node, which rewrites the links of its parent and of all
its children in one go. What an uprooted forest looks like is said once, in `get?_uproot`.
-/

set_option autoImplicit false

namespace ObjectBus

namespace Forest

/-- **Well-formed forests**: the two sides of every link agree, and parents are older. -/
structure WellFormed (f : Forest) : Prop where
  sorted : Entries.Sorted f.nodes
  fresh : ∀ {n x}, f.get? n = some x → n < f.next
  parent : ∀ {c x p}, f.get? c = some x → x.parent = some p →
    p < c ∧ ∃ y, f.get? p = some y ∧ c ∈ y.children
  child : ∀ {p y c}, f.get? p = some y → c ∈ y.children →
    ∃ x, f.get? c = some x ∧ x.parent = some p
  nodup : ∀ {p y}, f.get? p = some y → y.children.Nodup

theorem wellFormed_empty : WellFormed {} where
  sorted := Entries.sorted_nil
  fresh h := by cases h
  parent h := by cases h
  child h := by cases h
  nodup h := by cases h

namespace WellFormed

variable {f : Forest} (hf : f.WellFormed)

include hf

/-- A child is younger than its parent. -/
theorem lt_of_mem_children {p c : NodeId} {y : Node} (hy : f.get? p = some y)
    (hc : c ∈ y.children) : p < c := by
  obtain ⟨x, hx, hp⟩ := hf.child hy hc
  exact (hf.parent hx hp).1

theorem mem_children_iff {p c : NodeId} {y x : Node} (hy : f.get? p = some y)
    (hx : f.get? c = some x) : c ∈ y.children ↔ x.parent = some p := by
  constructor
  · intro hc
    obtain ⟨x', hx', hp⟩ := hf.child hy hc
    rw [hx] at hx'
    cases hx'
    exact hp
  · intro hp
    obtain ⟨-, y', hy', hc⟩ := hf.parent hx hp
    rw [hy] at hy'
    cases hy'
    exact hc

theorem get?_next : f.get? f.next = none := by
  cases h : f.get? f.next with
  | none => rfl
  | some x => exact absurd (hf.fresh h) (Nat.lt_irrefl _)

end WellFormed

/-! ## Changing a node -/

theorem get?_adjust (f : Forest) (n m : NodeId) (change : Node → Node) :
    (f.adjust n change).get? m = if m = n then (f.get? m).map change else f.get? m :=
  Entries.get?_adjust n m change f.nodes

/-- A change of a node that leaves its place in the tree alone. -/
structure KeepsPlace (change : Node → Node) : Prop where
  name : ∀ x, (change x).name = x.name
  parent : ∀ x, (change x).parent = x.parent
  children : ∀ x, (change x).children = x.children

/-- What a node looks like after such a change, wherever the change was made. -/
theorem get?_adjust_cases {f : Forest} {n m : NodeId} {change : Node → Node} {x : Node}
    (h : (f.adjust n change).get? m = some x) :
    ∃ y, f.get? m = some y ∧ (x = y ∨ m = n ∧ x = change y) := by
  rw [get?_adjust] at h
  split at h
  · next hmn =>
      obtain ⟨y, hy, rfl⟩ := Option.map_eq_some_iff.1 h
      exact ⟨y, hy, Or.inr ⟨hmn, rfl⟩⟩
  · exact ⟨x, h, Or.inl rfl⟩

theorem KeepsPlace.get? {change : Node → Node} (hc : KeepsPlace change) {f : Forest}
    {n m : NodeId} {x : Node} (h : (f.adjust n change).get? m = some x) :
    ∃ y, f.get? m = some y ∧ x.name = y.name ∧ x.parent = y.parent ∧ x.children = y.children := by
  obtain ⟨y, hy, rfl | ⟨-, rfl⟩⟩ := get?_adjust_cases h
  · exact ⟨x, hy, rfl, rfl, rfl⟩
  · exact ⟨y, hy, hc.name y, hc.parent y, hc.children y⟩

theorem KeepsPlace.get?_of {change : Node → Node} (hc : KeepsPlace change) {f : Forest}
    {m : NodeId} {y : Node} (n : NodeId) (h : f.get? m = some y) :
    ∃ x, (f.adjust n change).get? m = some x ∧ x.name = y.name ∧ x.parent = y.parent ∧
      x.children = y.children := by
  rw [get?_adjust, h]
  split
  · exact ⟨_, rfl, hc.name y, hc.parent y, hc.children y⟩
  · exact ⟨_, rfl, rfl, rfl, rfl⟩

theorem WellFormed.adjust {f : Forest} (hf : f.WellFormed) (n : NodeId) {change : Node → Node}
    (hc : KeepsPlace change) : (f.adjust n change).WellFormed where
  sorted := Entries.sorted_adjust hf.sorted n change
  fresh h := by
    obtain ⟨y, hy, -⟩ := hc.get? h
    exact hf.fresh hy
  parent h hp := by
    obtain ⟨x, hx, -, hpx, -⟩ := hc.get? h
    obtain ⟨hlt, y, hy, hmem⟩ := hf.parent hx (hpx ▸ hp)
    obtain ⟨y', hy', -, -, hch⟩ := hc.get?_of n hy
    exact ⟨hlt, y', hy', hch ▸ hmem⟩
  child h hmem := by
    obtain ⟨y, hy, -, -, hch⟩ := hc.get? h
    obtain ⟨x, hx, hp⟩ := hf.child hy (hch ▸ hmem)
    obtain ⟨x', hx', -, hpx, -⟩ := hc.get?_of n hx
    exact ⟨x', hx', hpx.trans hp⟩
  nodup h := by
    obtain ⟨y, hy, -, -, hch⟩ := hc.get? h
    rw [hch]
    exact hf.nodup hy

/-! ## Growing -/

/-- The node that `grow` makes. -/
def seedling (name : String) (parent : Option NodeId) (servers : List TransportId) : Node :=
  { name, parent, children := [], servers, interfaces := [], managing := none, handles := 1 }

@[simp] theorem next_grow (f : Forest) (name : String) (parent : Option NodeId)
    (servers : List TransportId) : (f.grow name parent servers).2.next = f.next + 1 := by
  cases parent <;> rfl

/-- **The forest after growing**: the new node, and one more child of its parent. -/
theorem get?_grow_of {f : Forest} (hfresh : ∀ {n x}, f.get? n = some x → n < f.next)
    (name : String) {parent : Option NodeId} (hp : ∀ p, parent = some p → (f.get? p).isSome)
    (servers : List TransportId) (m : NodeId) :
    (f.grow name parent servers).2.get? m =
      if m = f.next then some (seedling name parent servers)
      else (f.get? m).map fun x =>
        if parent = some m then { x with children := x.children ++ [f.next] } else x := by
  have hnew : ∀ m, Entries.get? m (Entries.put f.next (seedling name parent servers) f.nodes) =
      if m = f.next then some (seedling name parent servers) else f.get? m := by
    intro m
    unfold get?
    split
    · next h => rw [h, Entries.get?_put_self]
    · next h => rw [Entries.get?_put_of_ne h]
  cases parent with
  | none =>
      refine (hnew m).trans ?_
      simp
  | some p =>
      have hne : f.next ≠ p := by
        obtain ⟨x, hx⟩ := Option.isSome_iff_exists.1 (hp p rfl)
        exact Nat.ne_of_gt (hfresh hx)
      refine (get?_adjust _ p m _).trans ?_
      dsimp only [get?] at hnew ⊢
      simp only [seedling] at hnew ⊢
      rw [hnew]
      by_cases hm : m = f.next
      · subst hm
        simp [hne]
      · simp only [hm, if_false, Option.some.injEq]
        by_cases hmp : m = p
        · simp [hmp]
        · have hpm : p ≠ m := fun h => hmp h.symm
          simp [hmp, hpm]

theorem get?_grow {f : Forest} (hf : f.WellFormed) (name : String) {parent : Option NodeId}
    (hp : ∀ p, parent = some p → (f.get? p).isSome) (servers : List TransportId) (m : NodeId) :
    (f.grow name parent servers).2.get? m =
      if m = f.next then some (seedling name parent servers)
      else (f.get? m).map fun x =>
        if parent = some m then { x with children := x.children ++ [f.next] } else x :=
  get?_grow_of hf.fresh name hp servers m

theorem sorted_grow {f : Forest} (hf : Entries.Sorted f.nodes) (name : String)
    (parent : Option NodeId) (servers : List TransportId) :
    Entries.Sorted (f.grow name parent servers).2.nodes := by
  have hput := Entries.sorted_put hf f.next (seedling name parent servers)
  cases parent with
  | none => exact hput
  | some p => exact Entries.sorted_adjust hput p _

section Grow

variable {f : Forest} (hf : f.WellFormed) (name : String) {parent : Option NodeId}
  (hp : ∀ p, parent = some p → (f.get? p).isSome) (servers : List TransportId)

include hf hp

/-- The new node is listed by its parent, and all others are listed as before. -/
theorem parent_grow {c p : NodeId} {x : Node}
    (hc : (f.grow name parent servers).2.get? c = some x) (hpar : x.parent = some p) :
    p < c ∧ ∃ y, (f.grow name parent servers).2.get? p = some y ∧ c ∈ y.children := by
  have hget := get?_grow hf name hp servers
  have hold : ∀ {m x}, f.get? m = some x → m ≠ f.next := fun h => Nat.ne_of_lt (hf.fresh h)
  rw [hget] at hc
  split at hc
  · next hnew =>
      cases hc
      have hpar' : parent = some p := hpar
      obtain ⟨y, hy⟩ := Option.isSome_iff_exists.1 (hp p hpar')
      refine ⟨hnew ▸ hf.fresh hy, { y with children := y.children ++ [f.next] }, ?_, ?_⟩
      · rw [hget, if_neg (hold hy), hy]
        simp [hpar']
      · simp [hnew]
  · obtain ⟨x', hx', rfl⟩ := Option.map_eq_some_iff.1 hc
    have hpar' : x'.parent = some p := by
      rw [← hpar]
      split <;> rfl
    obtain ⟨hlt, y, hy, hmem⟩ := hf.parent hx' hpar'
    refine ⟨hlt, _, by rw [hget, if_neg (hold hy), hy]; rfl, ?_⟩
    dsimp only
    split
    · exact List.mem_append_left _ hmem
    · exact hmem

theorem child_grow {p c : NodeId} {y : Node}
    (hy : (f.grow name parent servers).2.get? p = some y) (hmem : c ∈ y.children) :
    ∃ x, (f.grow name parent servers).2.get? c = some x ∧ x.parent = some p := by
  have hget := get?_grow hf name hp servers
  have hold : ∀ {m x}, f.get? m = some x → m ≠ f.next := fun h => Nat.ne_of_lt (hf.fresh h)
  rw [hget] at hy
  split at hy
  · -- the new node has no children
    cases hy
    cases hmem
  obtain ⟨y', hy', rfl⟩ := Option.map_eq_some_iff.1 hy
  by_cases hc : c = f.next
  · refine ⟨seedling name parent servers, by rw [hget, if_pos hc], ?_⟩
    split at hmem
    · next hpar => exact hpar
    · obtain ⟨x, hx, -⟩ := hf.child hy' hmem
      exact absurd hc (hold hx)
  · have hmem' : c ∈ y'.children := by
      split at hmem
      · rcases List.mem_append.1 hmem with h | h
        · exact h
        · exact absurd (List.mem_singleton.1 h) hc
      · exact hmem
    obtain ⟨x, hx, hxp⟩ := hf.child hy' hmem'
    refine ⟨_, by rw [hget, if_neg hc, hx]; rfl, ?_⟩
    dsimp only
    split <;> exact hxp

theorem nodup_grow {p : NodeId} {y : Node}
    (hy : (f.grow name parent servers).2.get? p = some y) : y.children.Nodup := by
  rw [get?_grow hf name hp servers] at hy
  split at hy
  · cases hy
    exact List.nodup_nil
  · obtain ⟨y', hy', rfl⟩ := Option.map_eq_some_iff.1 hy
    split
    · -- the new id is not in use yet
      refine List.nodup_append.2 ⟨hf.nodup hy', by simp, ?_⟩
      intro a ha b hb heq
      rw [List.mem_singleton] at hb
      obtain ⟨x, hx, -⟩ := hf.child hy' ha
      exact Nat.ne_of_lt (hf.fresh hx) (heq.trans hb)
    · exact hf.nodup hy'

theorem WellFormed.grow : (f.grow name parent servers).2.WellFormed where
  sorted := sorted_grow hf.sorted name parent servers
  fresh {m x} hm := by
    rw [get?_grow hf name hp servers] at hm
    rw [next_grow]
    split at hm
    · next hnew => exact hnew ▸ Nat.lt_succ_self _
    · obtain ⟨y, hy, -⟩ := Option.map_eq_some_iff.1 hm
      exact Nat.lt_succ_of_lt (hf.fresh hy)
  parent := parent_grow hf name hp servers
  child := child_grow hf name hp servers
  nodup := nodup_grow hf name hp servers

end Grow

/-! ## Uprooting -/

/-- How uprooting `x` changes another node `m`: the parent of `x` takes its children over, and its
children get its parent, or its name if there is none. -/
def movedUp (x : NodeId) (gone : Node) (m : NodeId) (y : Node) : Node :=
  { y with
    children :=
      if gone.parent = some m then y.children.filter (· != x) ++ gone.children else y.children
    parent := if m ∈ gone.children then gone.parent else y.parent
    name :=
      if m ∈ gone.children ∧ gone.parent = none then inheritName gone.name y.name else y.name }

private theorem get?_foldl_adjust {cs : List NodeId} (hcs : cs.Nodup) (change : Node → Node)
    (f : Forest) (m : NodeId) :
    (cs.foldl (fun f c => f.adjust c change) f).get? m =
      if m ∈ cs then (f.get? m).map change else f.get? m := by
  induction cs generalizing f with
  | nil => simp
  | cons c cs ih =>
      obtain ⟨hc, hcs⟩ := List.nodup_cons.1 hcs
      rw [List.foldl_cons, ih hcs, get?_adjust]
      by_cases hmc : m = c
      · subst hmc
        simp [hc]
      · simp [hmc]

@[simp] theorem next_uproot (f : Forest) (n : NodeId) (name : String) (parent : Option NodeId)
    (children : List NodeId) : (f.uproot n name parent children).next = f.next := by
  have hfold : ∀ (change : Node → Node) (cs : List NodeId) (g : Forest),
      (cs.foldl (fun f c => f.adjust c change) g).next = g.next := by
    intro change cs
    induction cs with
    | nil => intro g; rfl
    | cons c cs ih => intro g; exact (ih _).trans rfl
  unfold uproot
  rw [hfold]
  cases parent <;> rfl

/-- **The forest after uprooting**, wherever the parent and the children were noted: older ids and
younger ones, each once. -/
theorem get?_uproot_of {f : Forest} (hf : Entries.Sorted f.nodes) {x : NodeId} {gone : Node}
    (hparent : ∀ p, gone.parent = some p → p < x) (hchildren : ∀ c ∈ gone.children, x < c)
    (hnodup : gone.children.Nodup) (m : NodeId) :
    (f.uproot x gone.name gone.parent gone.children).get? m =
      if m = x then none else (f.get? m).map (movedUp x gone m) := by
  have hdrop : ∀ m, Forest.get? { f with nodes := Entries.drop x f.nodes } m =
      if m = x then none else f.get? m := fun m => Entries.get?_drop hf x m
  unfold uproot
  rw [get?_foldl_adjust hnodup]
  -- a child of the node is not its parent, so each node is changed in one of the two ways
  have hdisj : gone.parent = some m → m ∉ gone.children := fun hp hm =>
    Nat.lt_asymm (hparent m hp) (hchildren m hm)
  by_cases hmx : m = x
  · subst hmx
    have hself : m ∉ gone.children := fun hm => Nat.lt_irrefl _ (hchildren m hm)
    cases hp : gone.parent with
    | none => simp [hself, hdrop]
    | some p =>
        have hne : m ≠ p := Nat.ne_of_gt (hparent p hp)
        simp [hself, get?_adjust, hne, hdrop]
  · rw [if_neg hmx]
    cases hp : gone.parent with
    | none =>
        rw [hdrop, if_neg hmx]
        cases f.get? m with
        | none => split <;> rfl
        | some y => by_cases hm : m ∈ gone.children <;> simp [hm, movedUp, hp]
    | some p =>
        simp only [get?_adjust, hdrop, if_neg hmx]
        cases f.get? m with
        | none => simp
        | some y =>
            by_cases hmp : m = p
            · subst hmp
              simp [hdisj hp, movedUp, hp]
            · have hpm : p ≠ m := fun h => hmp h.symm
              by_cases hm : m ∈ gone.children <;> simp [hm, hmp, hpm, movedUp, hp]

theorem get?_uproot {f : Forest} (hf : f.WellFormed) {x : NodeId} {gone : Node}
    (hx : f.get? x = some gone) (m : NodeId) :
    (f.uproot x gone.name gone.parent gone.children).get? m =
      if m = x then none else (f.get? m).map (movedUp x gone m) :=
  get?_uproot_of hf.sorted (fun _ hp => (hf.parent hx hp).1)
    (fun _ hc => hf.lt_of_mem_children hx hc) (hf.nodup hx) m

/-- The parent of a node that moved up. -/
theorem parent_movedUp {f : Forest} (hf : f.WellFormed) {x m : NodeId} {gone y : Node}
    (hx : f.get? x = some gone) (hy : f.get? m = some y) :
    (movedUp x gone m y).parent = if y.parent = some x then gone.parent else y.parent := by
  simp only [movedUp, hf.mem_children_iff hx hy]

theorem sorted_uproot {f : Forest} (hf : Entries.Sorted f.nodes) (x : NodeId) (name : String)
    (parent : Option NodeId) (children : List NodeId) :
    Entries.Sorted (f.uproot x name parent children).nodes := by
  have hfold : ∀ (change : Node → Node) (cs : List NodeId) (g : Forest),
      Entries.Sorted g.nodes →
        Entries.Sorted (cs.foldl (fun f c => f.adjust c change) g).nodes := by
    intro change cs
    induction cs with
    | nil => intro g hg; exact hg
    | cons c cs ih => intro g hg; exact ih _ (Entries.sorted_adjust hg c change)
  unfold uproot
  refine hfold _ _ _ ?_
  cases parent with
  | none => exact Entries.sorted_drop hf x
  | some p => exact Entries.sorted_adjust (Entries.sorted_drop hf x) p _

section Uproot

variable {f : Forest} (hf : f.WellFormed) {x : NodeId} {gone : Node} (hx : f.get? x = some gone)

include hf hx

/-- The children that a node lists once `x` is uprooted: those that it listed before, but for `x`, and
those that it takes over. -/
theorem mem_children_movedUp_iff {p c : NodeId} {z : Node} (hz : f.get? p = some z) :
    c ∈ (movedUp x gone p z).children ↔
      (c ∈ z.children ∧ c ≠ x) ∨ (gone.parent = some p ∧ c ∈ gone.children) := by
  simp only [movedUp]
  by_cases hgp : gone.parent = some p
  · simp [hgp]
  · -- a node that is not the parent did not list `x`
    have hne : c ∈ z.children → c ≠ x := by
      rintro hmem rfl
      exact hgp ((hf.mem_children_iff hz hx).1 hmem)
    simp only [hgp, if_false, false_and, or_false]
    exact ⟨fun hmem => ⟨hmem, hne hmem⟩, And.left⟩

/-- A node that is still there has its parent, and is listed by it. -/
theorem parent_uproot {c p : NodeId} {y : Node}
    (hc : (f.uproot x gone.name gone.parent gone.children).get? c = some y)
    (hp : y.parent = some p) :
    p < c ∧ ∃ z, (f.uproot x gone.name gone.parent gone.children).get? p = some z ∧
      c ∈ z.children := by
  have hget := get?_uproot hf hx
  rw [hget] at hc
  split at hc
  · cases hc
  next hcx =>
    obtain ⟨y', hy', rfl⟩ := Option.map_eq_some_iff.1 hc
    rw [parent_movedUp hf hx hy'] at hp
    split at hp
    · -- a child of the uprooted node comes to the grandparent
      next hcp =>
        obtain ⟨hlt, z, hz, -⟩ := hf.parent hx hp
        refine ⟨Nat.lt_trans hlt (hf.parent hy' hcp).1, movedUp x gone p z, ?_, ?_⟩
        · rw [hget, if_neg (Nat.ne_of_lt hlt), hz]
          rfl
        · exact (mem_children_movedUp_iff hf hx hz).2
            (Or.inr ⟨hp, (hf.mem_children_iff hx hy').2 hcp⟩)
    · -- any other node keeps its parent
      next hcp =>
        obtain ⟨hlt, z, hz, hmem⟩ := hf.parent hy' hp
        have hpx : p ≠ x := fun h => hcp (h ▸ hp)
        refine ⟨hlt, movedUp x gone p z, ?_, ?_⟩
        · rw [hget, if_neg hpx, hz]
          rfl
        · exact (mem_children_movedUp_iff hf hx hz).2 (Or.inl ⟨hmem, hcx⟩)

/-- A node that is listed is there, and has the parent that lists it. -/
theorem child_uproot {p c : NodeId} {z : Node}
    (hp : (f.uproot x gone.name gone.parent gone.children).get? p = some z)
    (hmem : c ∈ z.children) :
    ∃ y, (f.uproot x gone.name gone.parent gone.children).get? c = some y ∧ y.parent = some p := by
  have hget := get?_uproot hf hx
  rw [hget] at hp
  split at hp
  · cases hp
  next hpx =>
    obtain ⟨z', hz', rfl⟩ := Option.map_eq_some_iff.1 hp
    rcases (mem_children_movedUp_iff hf hx hz').1 hmem with ⟨hmem, hcx⟩ | ⟨hgp, hmem⟩
    · obtain ⟨y, hy, hyp⟩ := hf.child hz' hmem
      refine ⟨movedUp x gone c y, by rw [hget, if_neg hcx, hy]; rfl, ?_⟩
      rw [parent_movedUp hf hx hy, hyp, if_neg (by simpa using hpx)]
    · obtain ⟨y, hy, hyp⟩ := hf.child hx hmem
      have hcx : c ≠ x := Nat.ne_of_gt (hf.lt_of_mem_children hx hmem)
      refine ⟨movedUp x gone c y, by rw [hget, if_neg hcx, hy]; rfl, ?_⟩
      rw [parent_movedUp hf hx hy, if_pos hyp, hgp]

/-- The children that are taken over were not listed before. -/
theorem nodup_children_movedUp {p : NodeId} {z : Node} (hz : f.get? p = some z) :
    (movedUp x gone p z).children.Nodup := by
  simp only [movedUp]
  split
  · next hgp =>
      refine List.nodup_append.2 ⟨(hf.nodup hz).filter _, hf.nodup hx, ?_⟩
      rintro a ha b hb rfl
      obtain ⟨y, hy, hyp⟩ := hf.child hz (List.mem_filter.1 ha).1
      have hyx := (hf.mem_children_iff hx hy).1 hb
      have hlt := (hf.parent hx hgp).1
      rw [hyp, Option.some.injEq] at hyx
      exact Nat.ne_of_lt hlt hyx
  · exact hf.nodup hz

theorem WellFormed.uproot : (f.uproot x gone.name gone.parent gone.children).WellFormed where
  sorted := sorted_uproot hf.sorted x _ _ _
  fresh {m y} hm := by
    rw [get?_uproot hf hx] at hm
    rw [next_uproot]
    split at hm
    · cases hm
    · obtain ⟨y', hy', -⟩ := Option.map_eq_some_iff.1 hm
      exact hf.fresh hy'
  parent := parent_uproot hf hx
  child := child_uproot hf hx
  nodup {p z} hp := by
    rw [get?_uproot hf hx] at hp
    split at hp
    · cases hp
    · obtain ⟨z', hz', rfl⟩ := Option.map_eq_some_iff.1 hp
      exact nodup_children_movedUp hf hx hz'

end Uproot

end Forest

end ObjectBus
