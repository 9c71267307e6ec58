import ObjectBus.Proofs.Callbacks.Laws
import ObjectBus.Proofs.Effect.Attach
import ObjectBus.Session.Run

/-!
# Owners, while transports call back

A transport that is called may run commands in the middle of an operation, and these may do to the
bus whatever commands can do. Two things are true of it all the same.

`Bus.Owned` is an invariant: a name that a node has leads to a value of that name which is attached to
this node and to no other. While a node is being destroyed it has names still whose values have left
it already, so the invariant says which nodes are on the way out.

`Bus.Follows` says what an operation may count on when it goes on after a call: a value that was in a
handle has come to no node meanwhile, and to no name. A loose value is another matter, because a
command may attach it; but a value that is being attached is not loose any more.

Whatever keeps the one and does the other advances the bus (`Bus.Advances`).
-/

set_option autoImplicit false

namespace ObjectBus

/-- A value later on: it has its name still, and it has a node only if it had it before. -/
structure Instance.Becomes (y y' : Instance) : Prop where
  name : y'.interface.name = y.interface.name
  loose : y.isLoose = false → y'.isLoose = false
  owner : y.isLoose = false → y'.owner = y.owner ∨ y'.owner = none

namespace Instance

/-- What is told of a value by its node: its name, its owner, and whether it is in a handle. -/
def badge (y : Instance) : String × Option NodeId × Bool := (y.interface.name, y.owner, y.isLoose)

theorem eq_of_badge {y y' : Instance} (h : y'.badge = y.badge) :
    y'.interface.name = y.interface.name ∧ y'.owner = y.owner ∧ y'.isLoose = y.isLoose := by
  simpa only [badge, Prod.mk.injEq] using h

theorem Becomes.of_badge {y y' : Instance} (h : y'.badge = y.badge) : y.Becomes y' := by
  obtain ⟨hname, howner, hloose⟩ := eq_of_badge h
  exact ⟨hname, fun h => hloose.trans h, fun _ => Or.inl howner⟩

theorem Becomes.trans {y y' y'' : Instance} (h : y.Becomes y') (h' : y'.Becomes y'') :
    y.Becomes y'' where
  name := h'.name.trans h.name
  loose hy := h'.loose (h.loose hy)
  owner hy := by
    rcases h'.owner (h.loose hy) with howner | hnone
    · rw [howner]
      exact h.owner hy
    · exact Or.inr hnone

end Instance

namespace Bus

/-- **Names have owners**: what a name leads to is a value of this name in a handle, whose owner is the
node that has the name; or the node is leaving, and the value is on its own. -/
structure Owned (leaving : NodeId → Prop) (b : Bus) : Prop where
  nodes : Entries.Sorted b.forest.nodes
  tables : ∀ {n x}, b.node? n = some x → Entries.Sorted x.interfaces
  values : Entries.Sorted b.interfaces
  value_lt : ∀ {i y}, b.interface? i = some y → i < b.next
  entry_lt : ∀ {n k i}, b.Has n k i → i < b.next
  entry : ∀ {n k i y}, b.Has n k i → b.interface? i = some y →
    y.interface.name = k ∧ y.isLoose = false ∧ (y.owner = some n ∨ leaving n ∧ y.owner = none)

/-- **What may be counted on later**: values are what they were, and those in handles have come to no
node and to no name. -/
structure Follows (b b' : Bus) : Prop where
  next : b.next ≤ b'.next
  value : ∀ {i y'}, i < b.next → b'.interface? i = some y' →
    ∃ y, b.interface? i = some y ∧ y.Becomes y' ∧
      (y.isLoose = false → ∀ n k, b'.Has n k i → b.Has n k i)

/-- **Anything that keeps the owners** of names, whoever is leaving meanwhile. -/
def Advances (b b' : Bus) : Prop :=
  ∀ leaving, b.Owned leaving → b'.Owned leaving ∧ b.Follows b'

theorem owned_empty : Owned (fun _ => False) {} where
  nodes := Entries.sorted_nil
  tables h := nomatch h
  values := Entries.sorted_nil
  value_lt h := nomatch h
  entry_lt := by
    rintro n k i ⟨x, hx, -⟩
    cases hx
  entry _ h := nomatch h

theorem Owned.mono {leaving leaving' : NodeId → Prop} {b : Bus} (hb : b.Owned leaving)
    (h : ∀ n, leaving n → leaving' n) : b.Owned leaving' where
  nodes := hb.nodes
  tables := hb.tables
  values := hb.values
  value_lt := hb.value_lt
  entry_lt := hb.entry_lt
  entry hk hi := by
    obtain ⟨hname, hloose, howner | ⟨hleaving, howner⟩⟩ := hb.entry hk hi
    · exact ⟨hname, hloose, Or.inl howner⟩
    · exact ⟨hname, hloose, Or.inr ⟨h _ hleaving, howner⟩⟩

/-- Two names that lead to one value are the same, unless both nodes are leaving. -/
theorem Owned.eq_or_leaving {leaving : NodeId → Prop} {b : Bus} (hb : b.Owned leaving)
    {n m : NodeId} {k l : String} {i : InterfaceId} {y : Instance} (hi : b.interface? i = some y)
    (hk : b.Has n k i) (hl : b.Has m l i) : m = n ∧ l = k ∨ leaving m := by
  obtain ⟨hname, -, howner⟩ := hb.entry hk hi
  obtain ⟨hname', -, howner' | ⟨hleaving, -⟩⟩ := hb.entry hl hi
  · rcases howner with howner | ⟨-, hnone⟩
    · exact Or.inl ⟨Option.some.inj (howner'.symm.trans howner), hname'.symm.trans hname⟩
    · rw [hnone] at howner'
      cases howner'
  · exact Or.inr hleaving

/-- A loose value has no name. -/
theorem Owned.not_has_of_loose {leaving : NodeId → Prop} {b : Bus} (hb : b.Owned leaving)
    {i : InterfaceId} {y : Instance} (hi : b.interface? i = some y) (hloose : y.isLoose = true)
    (n : NodeId) (k : String) : ¬b.Has n k i := by
  intro hk
  have hheld := (hb.entry hk hi).2.1
  rw [hloose] at hheld
  cases hheld

theorem Follows.refl (b : Bus) : b.Follows b :=
  ⟨Nat.le_refl _, fun {_ y} _ hi =>
    ⟨y, hi, Instance.Becomes.of_badge rfl, fun _ _ _ h => h⟩⟩

theorem Follows.trans {b b' b'' : Bus} (h : b.Follows b') (h' : b'.Follows b'') :
    b.Follows b'' where
  next := Nat.le_trans h.next h'.next
  value hlt hi := by
    obtain ⟨y', hy', hbecomes', hhas'⟩ := h'.value (Nat.lt_of_lt_of_le hlt h.next) hi
    obtain ⟨y, hy, hbecomes, hhas⟩ := h.value hlt hy'
    exact ⟨y, hy, hbecomes.trans hbecomes', fun hloose n k hk =>
      hhas hloose n k (hhas' (hbecomes.loose hloose) n k hk)⟩

namespace Advances

theorem refl (b : Bus) : b.Advances b := fun _ hb => ⟨hb, Follows.refl b⟩

theorem trans {b b' b'' : Bus} (h : b.Advances b') (h' : b'.Advances b'') : b.Advances b'' := by
  intro leaving hb
  obtain ⟨hb', hf⟩ := h leaving hb
  obtain ⟨hb'', hf'⟩ := h' leaving hb'
  exact ⟨hb'', hf.trans hf'⟩

/-- One step after the other. -/
theorem foldl {ι : Type} {f : Bus → ι → Bus} (hf : ∀ b x, Advances b (f b x))
    (xs : List ι) (b : Bus) : b.Advances (xs.foldl f b) := by
  induction xs generalizing b with
  | nil => exact refl b
  | cons x xs ih => exact (hf b x).trans (ih (f b x))

end Advances

/-! ## What happens aside -/

/-- **Nothing has happened to names and owners.** -/
structure Aside (b b' : Bus) : Prop where
  nodes : Entries.Sorted b.forest.nodes → Entries.Sorted b'.forest.nodes
  tables : ∀ n, (b'.node? n).map Node.interfaces = (b.node? n).map Node.interfaces
  values : Entries.Sorted b.interfaces → Entries.Sorted b'.interfaces
  badges : ∀ i, (b'.interface? i).map Instance.badge = (b.interface? i).map Instance.badge
  next : b.next ≤ b'.next

namespace Aside

variable {b b' : Bus}

theorem has_iff (h : b.Aside b') (n : NodeId) (k : String) (i : InterfaceId) :
    b'.Has n k i ↔ b.Has n k i := by
  have htable : ∀ c : Bus, c.Has n k i ↔
      ∃ es, (c.node? n).map Node.interfaces = some es ∧ Entries.get? k es = some i := by
    intro c
    simp only [Has, Option.map_eq_some_iff]
    constructor
    · rintro ⟨x, hx, hk⟩
      exact ⟨_, ⟨x, hx, rfl⟩, hk⟩
    · rintro ⟨_, ⟨x, hx, rfl⟩, hk⟩
      exact ⟨x, hx, hk⟩
  rw [htable, htable, h.tables]

theorem exists_value (h : b.Aside b') {i : InterfaceId} {y' : Instance}
    (hi : b'.interface? i = some y') : ∃ y, b.interface? i = some y ∧ y'.badge = y.badge := by
  have hbadge := h.badges i
  rw [hi] at hbadge
  obtain ⟨y, hy, heq⟩ := Option.map_eq_some_iff.1 hbadge.symm
  exact ⟨y, hy, heq.symm⟩

theorem advances (h : b.Aside b') : b.Advances b' := by
  refine fun leaving hb => ⟨⟨h.nodes hb.nodes, ?_, h.values hb.values, ?_, ?_, ?_⟩, h.next, ?_⟩
  · intro n x' hx'
    have htable := h.tables n
    rw [hx'] at htable
    obtain ⟨x, hx, heq⟩ := Option.map_eq_some_iff.1 htable.symm
    exact heq ▸ hb.tables hx
  · intro i y' hi
    obtain ⟨y, hy, -⟩ := h.exists_value hi
    exact Nat.lt_of_lt_of_le (hb.value_lt hy) h.next
  · intro n k i hk
    exact Nat.lt_of_lt_of_le (hb.entry_lt ((h.has_iff n k i).1 hk)) h.next
  · intro n k i y' hk hi
    obtain ⟨y, hy, hbadge⟩ := h.exists_value hi
    obtain ⟨hname, howner, hloose⟩ := Instance.eq_of_badge hbadge
    rw [hname, howner, hloose]
    exact hb.entry ((h.has_iff n k i).1 hk) hy
  · intro i y' _ hi
    obtain ⟨y, hy, hbadge⟩ := h.exists_value hi
    exact ⟨y, hy, Instance.Becomes.of_badge hbadge, fun _ n k => (h.has_iff n k i).1⟩

end Aside

/-- The same nodes and values. -/
theorem aside_of_same {b b' : Bus} (hforest : b'.forest = b.forest)
    (hvalues : b'.interfaces = b.interfaces) (hnext : b.next ≤ b'.next) : b.Aside b' where
  nodes h := hforest ▸ h
  tables n := by rw [node?, node?, hforest]
  values h := hvalues ▸ h
  badges i := by rw [interface?, interface?, hvalues]
  next := hnext

theorem advances_of_same {b b' : Bus} (hforest : b'.forest = b.forest)
    (hvalues : b'.interfaces = b.interfaces) (hnext : b.next ≤ b'.next) : b.Advances b' :=
  (aside_of_same hforest hvalues hnext).advances

/-- A node changes, but for its names. -/
theorem advances_adjustNode (b : Bus) (n : NodeId) (change : Node → Node)
    (hc : ∀ x, (change x).interfaces = x.interfaces) : b.Advances (b.adjustNode n change) := by
  refine Aside.advances ⟨fun h => Entries.sorted_adjust h n change, fun m => ?_, id, fun _ => rfl,
    Nat.le_refl _⟩
  rw [node?_adjustNode]
  split
  · cases b.node? m with
    | none => rfl
    | some x => exact congrArg some (hc x)
  · rfl

/-- A value changes, but for what its node tells of it. -/
theorem advances_adjustInterface (b : Bus) (i : InterfaceId) (change : Instance → Instance)
    (hc : ∀ y, (change y).badge = y.badge) : b.Advances (b.adjustInterface i change) := by
  refine Aside.advances ⟨id, fun _ => rfl, fun h => Entries.sorted_adjust h i change, fun j => ?_,
    Nat.le_refl _⟩
  rw [interface?_adjustInterface]
  split
  · cases b.interface? j with
    | none => rfl
    | some y => exact congrArg some (hc y)
  · rfl

/-! ## Names go, and values come and go -/

/-- **Names go**, and nothing else happens to names and owners. -/
theorem Owned.of_fewer {leaving : NodeId → Prop} {b b' : Bus} (hb : b.Owned leaving)
    (hnodes : Entries.Sorted b'.forest.nodes)
    (htables : ∀ {n x}, b'.node? n = some x → Entries.Sorted x.interfaces)
    (hhas : ∀ {n k i}, b'.Has n k i → b.Has n k i) (hvalues : b'.interfaces = b.interfaces)
    (hnext : b'.next = b.next) : b'.Owned leaving ∧ b.Follows b' := by
  have hvalue : ∀ i, b'.interface? i = b.interface? i := fun i => by
    rw [interface?, interface?, hvalues]
  refine ⟨⟨hnodes, htables, hvalues ▸ hb.values, ?_, ?_, ?_⟩, Nat.le_of_eq hnext.symm, ?_⟩
  · intro i y hi
    rw [hnext]
    exact hb.value_lt ((hvalue i).symm.trans hi)
  · intro n k i hk
    rw [hnext]
    exact hb.entry_lt (hhas hk)
  · intro n k i y hk hi
    exact hb.entry (hhas hk) ((hvalue i).symm.trans hi)
  · intro i y _ hi
    exact ⟨y, (hvalue i).symm.trans hi, Instance.Becomes.of_badge rfl, fun _ _ _ => hhas⟩

/-- A node without one of its names. -/
theorem Owned.has_dropName {leaving : NodeId → Prop} {b : Bus} (hb : b.Owned leaving) {n m : NodeId}
    {name k : String} {i : InterfaceId} (hk : (b.adjustNode n (Node.dropName name)).Has m k i) :
    b.Has m k i ∧ ¬(m = n ∧ k = name) := by
  obtain ⟨x, hx, hk⟩ := hk
  rw [node?_adjustNode] at hx
  split at hx
  · next hm =>
      obtain ⟨y, hy, rfl⟩ := Option.map_eq_some_iff.1 hx
      rw [Node.interfaces_dropName, Entries.get?_drop (hb.tables hy)] at hk
      split at hk
      · cases hk
      · next hne => exact ⟨⟨y, hy, hk⟩, fun h => hne h.2⟩
  · next hm => exact ⟨⟨x, hx, hk⟩, fun h => hm h.1⟩

theorem advances_dropName (b : Bus) (n : NodeId) (name : String) :
    b.Advances (b.adjustNode n (Node.dropName name)) := by
  refine fun leaving hb => hb.of_fewer (Entries.sorted_adjust hb.nodes n _) ?_
    (fun hk => (hb.has_dropName hk).1) rfl rfl
  intro m x hx
  rw [node?_adjustNode] at hx
  split at hx
  · obtain ⟨y, hy, rfl⟩ := Option.map_eq_some_iff.1 hx
    exact Entries.sorted_drop (hb.tables hy) name
  · exact hb.tables hx

/-- **A value leaves its node**: the nodes that have a name for it are leaving. -/
theorem Owned.setOwner_none {leaving : NodeId → Prop} {b : Bus} (hb : b.Owned leaving)
    {i : InterfaceId} (hi : ∀ n k, b.Has n k i → leaving n) :
    (b.setOwner i none).Owned leaving where
  nodes := hb.nodes
  tables := hb.tables
  values := Entries.sorted_adjust hb.values i _
  value_lt {j y} hj := by
    rw [interface?_setOwner] at hj
    split at hj
    · obtain ⟨z, hz, -⟩ := Option.map_eq_some_iff.1 hj
      exact hb.value_lt hz
    · exact hb.value_lt hj
  entry_lt := hb.entry_lt
  entry {n k j y} hk hj := by
    have hk : b.Has n k j := hk
    rw [interface?_setOwner] at hj
    split at hj
    · next hji =>
        obtain ⟨z, hz, rfl⟩ := Option.map_eq_some_iff.1 hj
        obtain ⟨hname, hloose, -⟩ := hb.entry hk hz
        exact ⟨hname, hloose, Or.inr ⟨hi n k (hji ▸ hk), rfl⟩⟩
    · exact hb.entry hk hj

theorem follows_setOwner_none (b : Bus) (i : InterfaceId) : b.Follows (b.setOwner i none) := by
  refine ⟨Nat.le_refl _, fun {j y'} _ hj => ?_⟩
  rw [interface?_setOwner] at hj
  split at hj
  · obtain ⟨y, hy, rfl⟩ := Option.map_eq_some_iff.1 hj
    exact ⟨y, hy, ⟨rfl, id, fun _ => Or.inr rfl⟩, fun _ _ _ h => h⟩
  · exact ⟨y', hj, Instance.Becomes.of_badge rfl, fun _ _ _ h => h⟩

/-- A value is gone. -/
theorem advances_dropValue (b : Bus) (i : InterfaceId) :
    b.Advances { b with interfaces := Entries.drop i b.interfaces } := by
  intro leaving hb
  have hvalue : ∀ {j y}, Entries.get? j (Entries.drop i b.interfaces) = some y →
      b.interface? j = some y := by
    intro j y hj
    rw [Entries.get?_drop hb.values] at hj
    split at hj
    · cases hj
    · exact hj
  exact ⟨⟨hb.nodes, hb.tables, Entries.sorted_drop hb.values i, fun hj => hb.value_lt (hvalue hj),
    hb.entry_lt, fun hk hj => hb.entry hk (hvalue hj)⟩, Nat.le_refl _, fun {j y} _ hj =>
      ⟨y, hvalue hj, Instance.Becomes.of_badge rfl, fun _ _ _ h => h⟩⟩

/-- A new value has an id that no name leads to. -/
theorem advances_newInstance (b : Bus) (v : Instance) : b.Advances (b.newInstance v).2 := by
  intro leaving hb
  have hold : ∀ {j y}, j < b.next → (b.newInstance v).2.interface? j = some y →
      b.interface? j = some y := by
    intro j y hlt hj
    rwa [interface?_newInstance, if_neg (Nat.ne_of_lt hlt)] at hj
  refine ⟨⟨hb.nodes, hb.tables, Entries.sorted_put hb.values _ _, ?_, ?_, ?_⟩, Nat.le_succ _, ?_⟩
  · intro j y hj
    rw [interface?_newInstance] at hj
    split at hj
    · next heq => exact heq ▸ Nat.lt_succ_self _
    · exact Nat.lt_succ_of_lt (hb.value_lt hj)
  · exact fun hk => Nat.lt_succ_of_lt (hb.entry_lt hk)
  · intro n k j y hk hj
    have hk : b.Has n k j := hk
    exact hb.entry hk (hold (hb.entry_lt hk) hj)
  · exact fun {j y} hlt hj => ⟨y, hold hlt hj, Instance.Becomes.of_badge rfl, fun _ _ _ h => h⟩

/-! ## Nodes come and go -/

section Forests

/-- In a forest that was changed, a node has the names that it had. -/
theorem exists_of_adjust {f : Forest} {n m : NodeId} {change : Node → Node} {x : Node}
    (hx : (f.adjust n change).get? m = some x) (hc : ∀ x, (change x).interfaces = x.interfaces) :
    ∃ y, f.get? m = some y ∧ x.interfaces = y.interfaces := by
  obtain ⟨y, hy, rfl | ⟨-, rfl⟩⟩ := Forest.get?_adjust_cases hx
  · exact ⟨x, hy, rfl⟩
  · exact ⟨y, hy, hc y⟩

theorem exists_of_foldl_adjust {change : NodeId → Node → Node} {cs : List NodeId} {f : Forest}
    {m : NodeId} {x : Node} (hx : (cs.foldl (fun f c => f.adjust c (change c)) f).get? m = some x)
    (hc : ∀ c x, (change c x).interfaces = x.interfaces) :
    ∃ y, f.get? m = some y ∧ x.interfaces = y.interfaces := by
  induction cs generalizing f with
  | nil => exact ⟨x, hx, rfl⟩
  | cons c cs ih =>
      obtain ⟨z, hz, hxz⟩ := ih hx
      obtain ⟨y, hy, hzy⟩ := exists_of_adjust hz (hc c)
      exact ⟨y, hy, hxz.trans hzy⟩

/-- Who is left in a forest that a node was taken out of has the names that it had. -/
theorem exists_of_uproot {f : Forest} (hf : Entries.Sorted f.nodes) {n m : NodeId} {name : String}
    {parent : Option NodeId} {children : List NodeId} {x : Node}
    (hx : (f.uproot n name parent children).get? m = some x) :
    m ≠ n ∧ ∃ y, f.get? m = some y ∧ x.interfaces = y.interfaces := by
  unfold Forest.uproot at hx
  obtain ⟨z, hz, hxz⟩ := exists_of_foldl_adjust hx fun _ _ => rfl
  obtain ⟨y, hy, hzy⟩ : ∃ y, Forest.get? { f with nodes := Entries.drop n f.nodes } m = some y ∧
      z.interfaces = y.interfaces := by
    cases parent with
    | none => exact ⟨z, hz, rfl⟩
    | some p => exact exists_of_adjust hz fun _ => rfl
  have hy : Entries.get? m (Entries.drop n f.nodes) = some y := hy
  rw [Entries.get?_drop hf] at hy
  split at hy
  · cases hy
  · next hm => exact ⟨hm, y, hy, hxz.trans hzy⟩

/-- In a forest that a node was planted in, a node has the names that it had, or none. -/
theorem exists_of_grow {f : Forest} {name : String} {parent : Option NodeId}
    {servers : List TransportId} {m : NodeId} {x : Node}
    (hx : (f.grow name parent servers).2.get? m = some x) :
    x.interfaces = [] ∨ ∃ y, f.get? m = some y ∧ x.interfaces = y.interfaces := by
  obtain ⟨z, hz, hxz⟩ : ∃ z, Entries.get? m (Entries.put f.next
      (Forest.seedling name parent servers) f.nodes) = some z ∧ x.interfaces = z.interfaces := by
    cases parent with
    | none => exact ⟨x, hx, rfl⟩
    | some p => exact exists_of_adjust hx fun _ => rfl
  by_cases hm : m = f.next
  · rw [hm, Entries.get?_put_self, Option.some.injEq] at hz
    exact Or.inl (hxz.trans (hz ▸ rfl))
  · rw [Entries.get?_put_of_ne hm] at hz
    exact Or.inr ⟨z, hz, hxz⟩

end Forests

/-- A node that has left has no names, and does not count as leaving any more. -/
theorem Owned.left {leaving : NodeId → Prop} {b : Bus} {n : NodeId}
    (hb : b.Owned fun m => m = n ∨ leaving m) (hn : ∀ k i, ¬b.Has n k i) : b.Owned leaving where
  nodes := hb.nodes
  tables := hb.tables
  values := hb.values
  value_lt := hb.value_lt
  entry_lt := hb.entry_lt
  entry {m k i y} hk hi := by
    obtain ⟨hname, hloose, howner | ⟨rfl | hleaving, howner⟩⟩ := hb.entry hk hi
    · exact ⟨hname, hloose, Or.inl howner⟩
    · exact absurd hk (hn k i)
    · exact ⟨hname, hloose, Or.inr ⟨hleaving, howner⟩⟩

/-- **A node is taken out of the forest**: its names are gone, and the others are what they were. -/
theorem Owned.uproot {leaving : NodeId → Prop} {b : Bus} {n : NodeId}
    (hb : b.Owned fun m => m = n ∨ leaving m) (name : String) (parent : Option NodeId)
    (children : List NodeId) :
    (b.withForest (b.forest.uproot n name parent children)).Owned leaving ∧
      b.Follows (b.withForest (b.forest.uproot n name parent children)) := by
  obtain ⟨howned, hf⟩ : (b.withForest (b.forest.uproot n name parent children)).Owned
      (fun m => m = n ∨ leaving m) ∧
        b.Follows (b.withForest (b.forest.uproot n name parent children)) := by
    refine hb.of_fewer (Forest.sorted_uproot hb.nodes n name parent children) (fun hx => ?_) ?_ rfl rfl
    · obtain ⟨-, y, hy, htable⟩ := exists_of_uproot hb.nodes hx
      exact htable ▸ hb.tables hy
    · rintro m k i ⟨x, hx, hk⟩
      obtain ⟨-, y, hy, htable⟩ := exists_of_uproot hb.nodes hx
      exact ⟨y, hy, htable ▸ hk⟩
  exact ⟨howned.left fun k i ⟨x, hx, _⟩ => (exists_of_uproot hb.nodes hx).1 rfl, hf⟩

/-- A node is planted, and has no names yet. -/
theorem advances_grow (b : Bus) (name : String) (parent : Option NodeId)
    (servers : List TransportId) :
    b.Advances (b.withForest (b.forest.grow name parent servers).2) := by
  intro leaving hb
  refine hb.of_fewer (Forest.sorted_grow hb.nodes name parent servers) (fun hx => ?_) ?_ rfl rfl
  · rcases exists_of_grow hx with hnil | ⟨y, hy, htable⟩
    · exact hnil ▸ Entries.sorted_nil
    · exact htable ▸ hb.tables hy
  · rintro m k i ⟨x, hx, hk⟩
    rcases exists_of_grow hx with hnil | ⟨y, hy, htable⟩
    · rw [hnil] at hk
      cases hk
    · exact ⟨y, hy, htable ▸ hk⟩

end Bus

end ObjectBus
