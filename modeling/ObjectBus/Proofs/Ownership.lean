import ObjectBus.Proofs.Sound

/-!
# Values and their nodes

A node has names that lead to interface values, and an interface value believes to be attached to a
node. In a `Bus.Faithful` bus the two agree, in both directions. Moving an attached value out of its
handle is what makes them differ: the name stays and leads nowhere, and the value that was moved
still believes in its node.

That operations keep a bus faithful is proved with what else they do. Here are the few ways in which
names and beliefs change together.
-/

set_option autoImplicit false

namespace ObjectBus.Bus

/-- **A node has a name** that leads to a value. -/
def Has (b : Bus) (n : NodeId) (k : String) (i : InterfaceId) : Prop :=
  ∃ x, b.node? n = some x ∧ Entries.get? k x.interfaces = some i

/-- **Where a value believes to be attached**, and its name. -/
def owner? (b : Bus) (i : InterfaceId) : Option (NodeId × String) :=
  (b.interface? i).bind fun y => y.owner.map fun n => (n, y.interface.name)

/-- **Names and beliefs agree.** -/
def Faithful (b : Bus) : Prop := ∀ n k i, b.Has n k i ↔ b.owner? i = some (n, k)

theorem faithful_empty : Faithful {} := by
  intro n k i
  constructor
  · rintro ⟨x, hx, -⟩
    cases hx
  · intro h
    cases h

theorem owner?_eq_some {b : Bus} {i : InterfaceId} {n : NodeId} {k : String} :
    b.owner? i = some (n, k) ↔
      ∃ y, b.interface? i = some y ∧ y.owner = some n ∧ y.interface.name = k := by
  unfold owner?
  simp only [Option.bind_eq_some_iff, Option.map_eq_some_iff, Prod.mk.injEq]
  constructor
  · rintro ⟨y, hy, m, hm, rfl, hk⟩
    exact ⟨y, hy, hm, hk⟩
  · rintro ⟨y, hy, hn, hk⟩
    exact ⟨y, hy, n, hn, rfl, hk⟩

theorem owner?_of_interface? {b : Bus} {i : InterfaceId} {y : Instance}
    (hi : b.interface? i = some y) :
    b.owner? i = y.owner.map fun n => (n, y.interface.name) := by
  rw [owner?, hi]
  rfl

/-- In a faithful bus, names lead to live values. -/
theorem Faithful.isLiveInterface {b : Bus} (hf : b.Faithful) (hh : b.Held) {n : NodeId} {x : Node}
    {k : String} {i : InterfaceId} (hn : b.node? n = some x)
    (hk : Entries.get? k x.interfaces = some i) : b.isLiveInterface i = true := by
  obtain ⟨y, hy, -⟩ := owner?_eq_some.1 ((hf n k i).1 ⟨x, hn, hk⟩)
  exact hh.isLiveInterface hy

/-! ## Where nothing changes -/

theorem Faithful.congr {b b' : Bus} (hf : b.Faithful)
    (hhas : ∀ n k i, b'.Has n k i ↔ b.Has n k i) (hown : ∀ i, b'.owner? i = b.owner? i) :
    b'.Faithful := by
  intro n k i
  rw [hhas, hown]
  exact hf n k i

theorem Called.has {b b' : Bus} (h : b.Called b') (n : NodeId) (k : String) (i : InterfaceId) :
    b'.Has n k i ↔ b.Has n k i := by
  rw [Has, Has, h.node?]

theorem Called.owner? {b b' : Bus} (h : b.Called b') (i : InterfaceId) :
    b'.owner? i = b.owner? i := by
  rw [Bus.owner?, Bus.owner?, h.interface?]

theorem Faithful.called {b b' : Bus} (hf : b.Faithful) (h : b.Called b') : b'.Faithful :=
  hf.congr h.has h.owner?

/-- A change of nodes that keeps all names. -/
theorem Faithful.of_nodes {b b' : Bus} (hf : b.Faithful)
    (hnodes : ∀ n, (b'.node? n).map Node.interfaces = (b.node? n).map Node.interfaces)
    (hvalues : b'.interfaces = b.interfaces) : b'.Faithful := by
  have hhas : ∀ (c : Bus) n k i, c.Has n k i ↔
      ∃ es, (c.node? n).map Node.interfaces = some es ∧ Entries.get? k es = some i := by
    intro c n k i
    simp only [Has, Option.map_eq_some_iff]
    constructor
    · rintro ⟨x, hx, hk⟩
      exact ⟨_, ⟨x, hx, rfl⟩, hk⟩
    · rintro ⟨_, ⟨x, hx, rfl⟩, hk⟩
      exact ⟨x, hx, hk⟩
  refine hf.congr (fun n k i => by rw [hhas, hhas, hnodes]) fun i => ?_
  rw [owner?, owner?, interface?, interface?, hvalues]

theorem Faithful.adjustNode {b : Bus} (hf : b.Faithful) (n : NodeId) {change : Node → Node}
    (hc : ∀ x, (change x).interfaces = x.interfaces) : (b.adjustNode n change).Faithful := by
  refine hf.of_nodes (fun m => ?_) rfl
  rw [node?_adjustNode]
  split
  · rw [Option.map_map]
    congr 1
    funext x
    exact hc x
  · rfl

/-- A change of values that keeps their names and owners. -/
theorem Faithful.of_values {b b' : Bus} (hf : b.Faithful) (hforest : b'.forest = b.forest)
    (hvalues : ∀ i, b'.owner? i = b.owner? i) : b'.Faithful :=
  hf.congr (fun n k i => by rw [Has, Has, node?, node?, hforest]) hvalues

theorem owner?_adjustInterface {b : Bus} (i j : InterfaceId) {change : Instance → Instance}
    (hc : ∀ y, (change y).interface.name = y.interface.name ∧ (change y).owner = y.owner) :
    (b.adjustInterface i change).owner? j = b.owner? j := by
  unfold owner?
  rw [interface?_adjustInterface]
  split
  · cases b.interface? j with
    | none => rfl
    | some y => simp [hc y]
  · rfl

theorem Faithful.adjustInterface {b : Bus} (hf : b.Faithful) (i : InterfaceId)
    {change : Instance → Instance}
    (hc : ∀ y, (change y).interface.name = y.interface.name ∧ (change y).owner = y.owner) :
    (b.adjustInterface i change).Faithful :=
  hf.of_values rfl fun j => owner?_adjustInterface i j hc

/-! ## Leaving a node -/

theorem owner?_setOwner_none (b : Bus) (i j : InterfaceId) :
    (b.setOwner i none).owner? j = if j = i then none else b.owner? j := by
  unfold owner?
  rw [interface?_setOwner]
  split
  · cases b.interface? j <;> rfl
  · rfl

/-- **A value leaves the node that has it.** -/
theorem Faithful.leave {b b' : Bus} (hf : b.Faithful) {n : NodeId} {name : String}
    {i : InterfaceId} (hi : b.Has n name i)
    (hhas : ∀ m k j, b'.Has m k j ↔ b.Has m k j ∧ ¬(m = n ∧ k = name))
    (hown : ∀ j, b'.owner? j = if j = i then none else b.owner? j) : b'.Faithful := by
  intro m k j
  rw [hhas, hown, hf]
  have hiown := (hf n name i).1 hi
  split
  · next hji =>
      subst hji
      rw [hiown]
      simp only [Option.some.injEq, Prod.mk.injEq, reduceCtorEq, iff_false]
      rintro ⟨⟨rfl, rfl⟩, hne⟩
      exact hne ⟨rfl, rfl⟩
  · next hji =>
      refine ⟨And.left, fun hj => ⟨hj, ?_⟩⟩
      -- a name leads to one value only
      rintro ⟨rfl, rfl⟩
      obtain ⟨x, hx, hk⟩ := hi
      obtain ⟨x', hx', hk'⟩ := (hf m k j).2 hj
      obtain rfl := Option.some.inj (hx.symm.trans hx')
      exact hji (Option.some.inj (hk'.symm.trans hk))

/-- A node without one of its names. -/
theorem has_adjustNode_drop {b : Bus} (hb : b.Sound) (n : NodeId) (name : String) (m : NodeId)
    (k : String) (j : InterfaceId) :
    (b.adjustNode n (Node.dropName name)).Has m k j ↔
      b.Has m k j ∧ ¬(m = n ∧ k = name) := by
  constructor
  · rintro ⟨x, hx, hk⟩
    obtain ⟨y, hy, rfl | ⟨rfl, rfl⟩⟩ := Forest.get?_adjust_cases hx
    · refine ⟨⟨x, hy, hk⟩, ?_⟩
      rintro ⟨rfl, rfl⟩
      have hself := (node?_adjustNode_self hy (Node.dropName k)).symm.trans hx
      rw [← Option.some.inj hself, Node.interfaces_dropName,
        Entries.get?_drop_self (hb.table hy)] at hk
      cases hk
    · rw [Node.interfaces_dropName, Entries.get?_drop (hb.table hy)] at hk
      split at hk
      · cases hk
      · next hne => exact ⟨⟨y, hy, hk⟩, fun h => hne h.2⟩
  · rintro ⟨⟨x, hx, hk⟩, hne⟩
    by_cases hm : m = n
    · subst hm
      refine ⟨_, node?_adjustNode_self hx _, ?_⟩
      rw [Node.interfaces_dropName, Entries.get?_drop_of_ne (fun hk' => hne ⟨rfl, hk'⟩), hk]
    · exact ⟨x, (node?_adjustNode_of_ne b hm _).trans hx, hk⟩

/-- A value without a name comes or goes. -/
theorem Faithful.of_loose {b b' : Bus} (hf : b.Faithful) (hforest : b'.forest = b.forest)
    {i : InterfaceId} (hi : b.owner? i = none)
    (hown : ∀ j, b'.owner? j = if j = i then none else b.owner? j) : b'.Faithful := by
  refine hf.of_values hforest fun j => ?_
  rw [hown]
  split
  · next hji => rw [hji, hi]
  · rfl

end ObjectBus.Bus
