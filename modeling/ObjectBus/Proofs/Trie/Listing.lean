import ObjectBus.Proofs.Address
import ObjectBus.Proofs.Registry

/-!
# What a trie lists

The values of a trie, listed branch by branch with their components (`Trie.entries`), are exactly
those that are found in it, and they stand in the order of their components, compared one by one: a
prefix comes before what extends it.

The iteration with a stack visits the same values in the same order (`Stack.values_eq`). It gives
every branch its address, and a branch without one would be passed over together with everything
below it. That loses nothing: a branch of a tidy trie leads to a stored value, so its component is
part of a stored address. Counting goes over the same list.
-/

set_option autoImplicit false

namespace ObjectBus

namespace Trie

variable {α : Type}

/-- **Induction over tries**: what holds of a trie if it holds of its branches holds of all. -/
@[elab_as_elim]
theorem induction {motive : Trie α → Prop}
    (node : ∀ v ch, (∀ e ∈ ch, motive e.2) → motive (.node v ch)) (t : Trie α) : motive t :=
  @Trie.rec α motive (fun ch => ∀ e ∈ ch, motive e.2) (fun e => motive e.2) node
    (fun _ h => nomatch h) (fun _ _ he hch => List.forall_mem_cons.2 ⟨he, hch⟩) (fun _ _ h => h) t

/-! ## Branches that lead somewhere -/

theorem branch?_append (t : Trie α) (cs ds : List String) :
    t.branch? (cs ++ ds) = (t.branch? cs).bind fun u => u.branch? ds := by
  induction cs generalizing t with
  | nil => rfl
  | cons c cs ih =>
      simp only [List.cons_append, branch?]
      cases Entries.get? c t.children with
      | none => rfl
      | some u => exact ih u

theorem find?_append (t : Trie α) (cs ds : List String) :
    t.find? (cs ++ ds) = (t.branch? cs).bind fun u => u.find? ds := by
  rw [find?, branch?_append, Option.bind_assoc]
  rfl

/-- The branches of a tidy trie are those that it lists. -/
theorem Tidy.get?_iff {v : Option α} {ch : Entries String (Trie α)} (h : Tidy (.node v ch))
    {c : String} {u : Trie α} : Entries.get? c ch = some u ↔ (c, u) ∈ ch :=
  ⟨Entries.mem_of_get?, Entries.get?_of_mem (tidy_node_iff.1 h).1⟩

/-- A branch of a tidy trie is tidy and not bare. -/
theorem Tidy.of_mem {v : Option α} {ch : Entries String (Trie α)} (h : Tidy (.node v ch))
    {c : String} {u : Trie α} (hu : (c, u) ∈ ch) : u.isBare = false ∧ u.Tidy :=
  (tidy_node_iff.1 h).2 c u (h.get?_iff.2 hu)

/-- A tidy trie that is not bare stores something. -/
theorem Tidy.exists_find? {t : Trie α} (h : t.Tidy) (hbare : t.isBare = false) :
    ∃ cs x, t.find? cs = some x := by
  induction t using Trie.induction with
  | node v ch ih =>
      cases v with
      | some x => exact ⟨[], x, rfl⟩
      | none =>
          cases ch with
          | nil => simp [isBare] at hbare
          | cons e ch =>
              obtain ⟨c, u⟩ := e
              have hmem : (c, u) ∈ (c, u) :: ch := List.mem_cons_self
              obtain ⟨hu, htidy⟩ := h.of_mem hmem
              obtain ⟨cs, x, hx⟩ := ih (c, u) hmem htidy hu
              exact ⟨c :: cs, x, by rw [find?_cons, h.get?_iff.2 hmem]; exact hx⟩

/-- **Every branch of a tidy trie leads to a stored value.** -/
theorem Tidy.exists_find?_of_branch {t : Trie α} (h : t.Tidy) {cs : List String} {u : Trie α}
    (hu : t.branch? cs = some u) (hne : cs ≠ []) : ∃ ds x, t.find? (cs ++ ds) = some x := by
  have htidy : u.Tidy := by
    intro ds w hw
    have hat : t.branch? (cs ++ ds) = some w := by rw [branch?_append, hu]; exact hw
    exact ⟨(h _ w hat).1, fun _ => (h _ w hat).2 (by simp [hne])⟩
  obtain ⟨ds, x, hx⟩ := htidy.exists_find? ((h cs u hu).2 hne)
  exact ⟨ds, x, by rw [find?_append, hu]; exact hx⟩

/-! ## The listing -/

mutual
/-- **The stored values with their components**: a value before those below it. -/
def entries : Trie α → Entries (List String) α
  | .node none ch => branchEntries ch
  | .node (some x) ch => ([], x) :: branchEntries ch

/-- The stored values of the branches, one branch after the other. -/
def branchEntries : List (String × Trie α) → Entries (List String) α
  | [] => []
  | (c, t) :: ch => (t.entries.map fun e => (c :: e.1, e.2)) ++ branchEntries ch
end

theorem branchEntries_eq_flatMap (ch : List (String × Trie α)) :
    branchEntries ch = ch.flatMap fun e => e.2.entries.map fun f => (e.1 :: f.1, f.2) := by
  induction ch with
  | nil => rfl
  | cons e ch ih => rw [List.flatMap_cons, ← ih]; rfl

theorem mem_branchEntries {ch : List (String × Trie α)} {cs : List String} {x : α} :
    (cs, x) ∈ branchEntries ch ↔
      ∃ c ds u, cs = c :: ds ∧ (c, u) ∈ ch ∧ (ds, x) ∈ u.entries := by
  rw [branchEntries_eq_flatMap, List.mem_flatMap]
  constructor
  · rintro ⟨⟨c, u⟩, hu, he⟩
    obtain ⟨⟨ds, y⟩, hmem, heq⟩ := List.mem_map.1 he
    cases heq
    exact ⟨c, ds, u, rfl, hu, hmem⟩
  · rintro ⟨c, ds, u, rfl, hu, hmem⟩
    exact ⟨(c, u), hu, List.mem_map.2 ⟨(ds, x), hmem, rfl⟩⟩

/-- A listed value stands at the top or in a branch. -/
theorem mem_entries_node {v : Option α} {ch : List (String × Trie α)} {cs : List String} {x : α} :
    (cs, x) ∈ (Trie.node v ch).entries ↔
      (cs = [] ∧ v = some x) ∨ (cs, x) ∈ branchEntries ch := by
  cases v with
  | none => simp [entries]
  | some y => simp [entries, eq_comm]

/-- **A tidy trie lists what is found in it.** -/
theorem mem_entries_iff {t : Trie α} (h : t.Tidy) {cs : List String} {x : α} :
    (cs, x) ∈ t.entries ↔ t.find? cs = some x := by
  induction t using Trie.induction generalizing cs with
  | node v ch ih =>
      rw [mem_entries_node, mem_branchEntries]
      cases cs with
      | nil => simp [find?_nil]
      | cons c cs =>
          rw [find?_cons, Option.bind_eq_some_iff]
          constructor
          · rintro (⟨hnil, -⟩ | ⟨d, ds, u, heq, hu, hx⟩)
            · cases hnil
            · cases heq
              exact ⟨u, h.get?_iff.2 hu, (ih (c, u) hu (h.of_mem hu).2).1 hx⟩
          · rintro ⟨u, hget, hx⟩
            have hu := h.get?_iff.1 hget
            exact Or.inr ⟨c, cs, u, rfl, hu, (ih (c, u) hu (h.of_mem hu).2).2 hx⟩

/-- **A tidy trie lists its values in the order of their components.** -/
theorem sorted_entries {t : Trie α} (h : t.Tidy) : Entries.Sorted t.entries := by
  induction t using Trie.induction with
  | node v ch ih =>
      have hbranches : Entries.Sorted (branchEntries ch) := by
        rw [branchEntries_eq_flatMap, Entries.Sorted, List.pairwise_flatMap]
        constructor
        · -- within a branch, by the components below it
          rintro ⟨c, u⟩ hu
          have hsorted := ih (c, u) hu (h.of_mem hu).2
          rw [List.pairwise_map]
          refine hsorted.imp fun {e f} hlt => ?_
          show compare (c :: e.1) (c :: f.1) = .lt
          rw [List.compare_cons_cons, Std.ReflOrd.compare_self]
          exact hlt
        · -- in different branches, by the component of the branch
          refine (tidy_node_iff.1 h).1.imp fun {e f} hlt => ?_
          intro x hx y hy
          obtain ⟨x', -, rfl⟩ := List.mem_map.1 hx
          obtain ⟨y', -, rfl⟩ := List.mem_map.1 hy
          show compare (e.1 :: x'.1) (f.1 :: y'.1) = .lt
          rw [List.compare_cons_cons, hlt]
          rfl
      cases v with
      | none => exact hbranches
      | some x =>
          -- the value at the top has the empty list of components, a prefix of all others
          refine Entries.sorted_cons.2 ⟨fun e he => ?_, hbranches⟩
          obtain ⟨cs, y⟩ := e
          obtain ⟨c, ds, u, rfl, -, -⟩ := mem_branchEntries.1 he
          exact List.compare_nil_cons

/-! ## Counting -/

theorem length_branchEntries {ch : List (String × Trie α)}
    (h : ∀ e ∈ ch, e.2.size = e.2.entries.length) :
    sizeAll ch = (branchEntries ch).length := by
  induction ch with
  | nil => rfl
  | cons e ch ih =>
      obtain ⟨he, hch⟩ := List.forall_mem_cons.1 h
      calc
        sizeAll (e :: ch) = e.2.size + sizeAll ch := rfl
        _ = e.2.entries.length + (branchEntries ch).length := by rw [he, ih hch]
        _ = (branchEntries (e :: ch)).length := by simp [branchEntries]

/-- The size is the number of listed values. -/
theorem size_eq (t : Trie α) : t.size = t.entries.length := by
  induction t using Trie.induction with
  | node v ch ih =>
      have hch := length_branchEntries ih
      cases v with
      | none =>
          simp only [size, entries, hch]
          simp
      | some x =>
          simp only [size, entries, hch, List.length_cons]
          simp
          omega

theorem allEmpty_iff {ch : List (String × Trie α)} :
    allEmpty ch = true ↔ ∀ e ∈ ch, e.2.isEmpty = true := by
  induction ch with
  | nil => simp [allEmpty]
  | cons e ch ih => simp [allEmpty, ih]

/-- A trie is empty if and only if it lists nothing. -/
theorem isEmpty_iff (t : Trie α) : t.isEmpty = true ↔ t.entries = [] := by
  induction t using Trie.induction with
  | node v ch ih =>
      cases v with
      | none =>
          simp only [isEmpty, entries, Option.isNone_none, Bool.true_and, allEmpty_iff,
            branchEntries_eq_flatMap, List.flatMap_eq_nil_iff, List.map_eq_nil_iff]
          exact forall₂_congr ih
      | some x => simp [isEmpty, entries]

/-! ## Iterating -/

/-- Nothing is stored below a text that is no component. -/
def Spelled (t : Trie α) : Prop := ∀ cs x, t.find? cs = some x → Address.Proper ⟨cs⟩

/-- A branch of a tidy trie is named by a component, because something is stored below it. -/
theorem Spelled.of_mem {v : Option α} {ch : Entries String (Trie α)}
    (hs : Spelled (.node v ch)) (ht : Tidy (.node v ch)) {c : String} {u : Trie α}
    (hu : (c, u) ∈ ch) :
    Address.IsComponent c ∧ u.Spelled := by
  have hbelow : ∀ cs x, u.find? cs = some x → Address.Proper ⟨c :: cs⟩ := by
    intro cs x hx
    refine hs (c :: cs) x ?_
    rw [find?_cons, ht.get?_iff.2 hu]
    exact hx
  obtain ⟨hbare, htidy⟩ := ht.of_mem hu
  obtain ⟨cs, x, hx⟩ := htidy.exists_find? hbare
  refine ⟨hbelow cs x hx c List.mem_cons_self, fun ds y hy d hd => ?_⟩
  exact hbelow ds y hy d (List.mem_cons_of_mem c hd)

namespace Stack

theorem values_of_next? {stack rest : Stack α} {e : Address × α}
    (h : next? stack = some (e, rest)) : values stack = e :: values rest := by
  rw [values.eq_def]
  split
  · next hnone => rw [h] at hnone; cases hnone
  · next f rest' hsome => rw [h] at hsome; cases hsome; rfl

theorem values_of_next?_none {stack : Stack α} (h : next? stack = none) : values stack = [] := by
  rw [values.eq_def]
  split
  · rfl
  · next f rest' hsome => rw [h] at hsome; cases hsome

theorem values_nil : values ([] : Stack α) = [] := values_of_next?_none (by rw [next?])

/-- A branch is taken from the stack: its value first, then what its own branches lead to. -/
theorem values_cons (a : Address) (v : Option α) (ch : List (String × Trie α)) (stack : Stack α) :
    values ((a, .node v ch) :: stack) =
      (v.map fun x => (a, x)).toList ++ values (branchesAt a ch ++ stack) := by
  cases v with
  | some x => exact values_of_next? (by rw [next?])
  | none =>
      have hskip : next? ((a, .node none ch) :: stack) = next? (branchesAt a ch ++ stack) := by
        rw [next?]
      cases hnext : next? (branchesAt a ch ++ stack) with
      | none => rw [values_of_next?_none (hskip.trans hnext), values_of_next?_none hnext]; rfl
      | some e =>
          obtain ⟨e, rest⟩ := e
          rw [values_of_next? (hskip.trans hnext), values_of_next? hnext]
          rfl

/-- The values of a trie that hangs at an address. -/
def listedAt (a : Address) (t : Trie α) : List (Address × α) :=
  t.entries.map fun e => (⟨a.components ++ e.1⟩, e.2)

/-- The branches of an address are visited one after the other, if each of them is. -/
theorem values_branchesAt {ch : List (String × Trie α)}
    (hname : ∀ e ∈ ch, Address.IsComponent e.1)
    (hvisit : ∀ e ∈ ch, ∀ (b : Address) (stack : Stack α),
      values ((b, e.2) :: stack) = listedAt b e.2 ++ values stack)
    (a : Address) (stack : Stack α) :
    values (branchesAt a ch ++ stack) =
      (branchEntries ch).map (fun e => (⟨a.components ++ e.1⟩, e.2)) ++ values stack := by
  induction ch with
  | nil => rfl
  | cons e ch ih =>
      obtain ⟨c, t⟩ := e
      obtain ⟨hc, hnames⟩ := List.forall_mem_cons.1 hname
      obtain ⟨ht, hvisits⟩ := List.forall_mem_cons.1 hvisit
      have hchild : a.child c = .ok ⟨a.components ++ [c]⟩ := Address.child_eq_ok_iff.2 ⟨hc, rfl⟩
      simp only [branchesAt, hchild, List.cons_append]
      rw [ht, ih hnames hvisits]
      simp [listedAt, branchEntries]

/-- **The stack visits what the trie lists**: first all of the next branch, then the others. -/
theorem values_eq {t : Trie α} (ht : t.Tidy) (hs : t.Spelled) (a : Address) (stack : Stack α) :
    values ((a, t) :: stack) = listedAt a t ++ values stack := by
  induction t using Trie.induction generalizing a stack with
  | node v ch ih =>
      have hname : ∀ e ∈ ch, Address.IsComponent e.1 := fun e he => (hs.of_mem ht he).1
      have hvisit : ∀ e ∈ ch, ∀ (b : Address) (stack : Stack α),
          values ((b, e.2) :: stack) = listedAt b e.2 ++ values stack := by
        intro e he
        exact ih e he (ht.of_mem he).2 (hs.of_mem ht he).2
      rw [values_cons, values_branchesAt hname hvisit]
      cases v with
      | none => rfl
      | some x => simp [listedAt, entries]

/-- A branch that is named by a component is visited at its address. -/
theorem mem_branchesAt {ch : List (String × Trie α)} {c : String} {u : Trie α}
    (hu : (c, u) ∈ ch) (hc : Address.IsComponent c) (a : Address) :
    (⟨a.components ++ [c]⟩, u) ∈ branchesAt a ch := by
  induction ch with
  | nil => cases hu
  | cons e ch ih =>
      obtain ⟨d, t⟩ := e
      rw [branchesAt]
      rcases List.mem_cons.1 hu with heq | hu
      · obtain ⟨rfl, rfl⟩ := Prod.ext_iff.1 heq
        have hchild : a.child c = .ok ⟨a.components ++ [c]⟩ :=
          Address.child_eq_ok_iff.2 ⟨hc, rfl⟩
        rw [hchild]
        exact List.mem_cons_self
      · split
        · exact List.mem_cons_of_mem _ (ih hu)
        · exact ih hu

/-- **What is stored at components is visited**, whatever else hangs on the stack. The induction is on
what is still to be visited: a branch gives way to its own branches. -/
theorem mem_values {stack : Stack α} {a : Address} {t : Trie α} (ht : (a, t) ∈ stack)
    {cs : List String} {x : α} (hx : t.find? cs = some x) (hcs : Address.Proper ⟨cs⟩) :
    (⟨a.components ++ cs⟩, x) ∈ values stack := by
  match stack with
  | [] => cases ht
  | (a', .node v ch) :: stack =>
      have hlt := pending_descend_lt a' v ch stack
      rw [values_cons, List.mem_append]
      rcases List.mem_cons.1 ht with heq | ht
      · obtain ⟨rfl, rfl⟩ : a = a' ∧ t = .node v ch := by simpa using heq
        cases cs with
        | nil =>
            obtain rfl : v = some x := hx
            exact Or.inl (by simp)
        | cons c cs =>
            rw [find?_cons] at hx
            obtain ⟨u, hu, hx⟩ := Option.bind_eq_some_iff.1 hx
            have hmem := mem_branchesAt (Entries.mem_of_get? hu) (hcs c List.mem_cons_self) a
            have hrest : Address.Proper ⟨cs⟩ := fun d hd => hcs d (List.mem_cons_of_mem c hd)
            have hvisited := mem_values (List.mem_append_left stack hmem) hx hrest
            exact Or.inr (by simpa using hvisited)
      · exact Or.inr (mem_values (List.mem_append_right _ ht) hx hcs)
termination_by pending stack

theorem proper_of_mem_branchesAt {ch : List (String × Trie α)} {a b : Address} {u : Trie α}
    (ha : a.Proper) (hb : (b, u) ∈ branchesAt a ch) : b.Proper := by
  induction ch with
  | nil => cases hb
  | cons e ch ih =>
      obtain ⟨c, t⟩ := e
      rw [branchesAt] at hb
      split at hb
      · next hchild =>
          rcases List.mem_cons.1 hb with heq | hb
          · obtain ⟨hc, rfl⟩ := Address.child_eq_ok_iff.1 hchild
            obtain ⟨rfl, -⟩ := Prod.ext_iff.1 heq
            exact List.forall_mem_append.2 ⟨ha, fun d hd => List.mem_singleton.1 hd ▸ hc⟩
          · exact ih hb
      · exact ih hb

/-- **What is visited from proper addresses is at proper addresses**: where no address goes on, the visit
does not. The induction is on what is still to be visited. -/
theorem proper_of_mem_values {stack : Stack α} (hstack : ∀ e ∈ stack, Address.Proper e.1)
    {a : Address} {x : α} (hx : (a, x) ∈ values stack) : a.Proper := by
  match stack with
  | [] =>
      rw [values_nil] at hx
      cases hx
  | (a', .node v ch) :: stack =>
      have hlt := pending_descend_lt a' v ch stack
      obtain ⟨ha', hrest⟩ := List.forall_mem_cons.1 hstack
      rw [values_cons, List.mem_append] at hx
      rcases hx with hx | hx
      · obtain ⟨y, -, heq⟩ := Option.map_eq_some_iff.1 (Option.mem_toList.1 hx)
        obtain ⟨rfl, -⟩ := Prod.ext_iff.1 heq
        exact ha'
      · refine proper_of_mem_values (fun e he => ?_) hx
        rcases List.mem_append.1 he with he | he
        · exact proper_of_mem_branchesAt ha' he
        · exact hrest e he
termination_by pending stack

end Stack

/-- All addresses that are listed are proper, whatever the trie stores. -/
theorem proper_of_mem_toList {t : Trie α} {a : Address} {x : α} (h : (a, x) ∈ t.toList) :
    a.Proper := by
  have hroot : Address.root.Proper := fun _ hc => nomatch hc
  exact Stack.proper_of_mem_values (List.forall_mem_singleton.2 hroot) h

/-- **What is stored at a proper address is listed**, whatever else the trie stores. -/
theorem mem_toList {t : Trie α} {a : Address} {x : α} (hx : t.get? a = some x) (ha : a.Proper) :
    (a, x) ∈ t.toList := by
  have hvisited := Stack.mem_values (List.mem_singleton_self (Address.root, t))
    ((get?_eq_find? t a).symm.trans hx) ha
  exact hvisited

/-- **Iterating yields what the trie lists**, each value with its address. -/
theorem toList_eq {t : Trie α} (ht : t.Tidy) (hs : t.Spelled) :
    t.toList = t.entries.map fun e => (⟨e.1⟩, e.2) := by
  have h := Stack.values_eq ht hs Address.root []
  rw [Stack.values_nil, List.append_nil] at h
  exact h

theorem mem_toList_iff {t : Trie α} (ht : t.Tidy) (hs : t.Spelled) {a : Address} {x : α} :
    (a, x) ∈ t.toList ↔ t.get? a = some x := by
  rw [toList_eq ht hs, get?_eq_find?, ← mem_entries_iff ht, List.mem_map]
  constructor
  · rintro ⟨e, he, heq⟩
    cases heq
    exact he
  · intro h
    exact ⟨(a.components, x), h, rfl⟩

theorem sorted_toList {t : Trie α} (ht : t.Tidy) (hs : t.Spelled) :
    Entries.Sorted t.toList := by
  rw [toList_eq ht hs, Entries.Sorted, List.pairwise_map]
  exact sorted_entries ht

end Trie

end ObjectBus
