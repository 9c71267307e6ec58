import ObjectBus.Proofs.Ownership

/-!
# What an operation can do

Whatever an operation is called, it does one of a few things to what nodes have and to what is
registered. `Bus.Effect` lists them, each with everything that an invariant of registrations can
depend on: nothing, a name dropped from a node, a node unbound, a node managing another object, a
value attached, a node bound. Destroying a node does more, and stands by itself (`Bus.Destroyed`).

What nodes have is compared by `Node.holdings`, which leaves handles and links out. `Bus.At`,
`Bus.Names` and `Bus.Offers` say where a node stands, with which names, and which of these lead to
a live value.
-/

set_option autoImplicit false

namespace ObjectBus

/-- What a node has: transports, names and a managed object. -/
def Node.holdings (x : Node) : List TransportId × Entries String InterfaceId × Option ObjectId :=
  (x.servers, x.interfaces, x.managing)

theorem Node.eq_of_holdings {x y : Node} (h : y.holdings = x.holdings) :
    y.servers = x.servers ∧ y.interfaces = x.interfaces ∧ y.managing = x.managing := by
  simpa only [Node.holdings, Prod.mk.injEq] using h

namespace Bus

/-- **A node stands at an address with a name.** -/
def Names (b : Bus) (n : NodeId) (t : TransportId) (a : Address) (k : String) : Prop :=
  b.At n t a ∧ ∃ x i, b.node? n = some x ∧ Entries.get? k x.interfaces = some i

/-- **A node stands at an address with a name that leads to a live value.** -/
def Offers (b : Bus) (n : NodeId) (t : TransportId) (a : Address) (k : String) : Prop :=
  b.At n t a ∧ ∃ x i, b.node? n = some x ∧ Entries.get? k x.interfaces = some i ∧
    b.isLiveInterface i = true

theorem Offers.names {b : Bus} {n : NodeId} {t : TransportId} {a : Address} {k : String}
    (h : b.Offers n t a k) : b.Names n t a k := by
  obtain ⟨hat, x, i, hx, hk, -⟩ := h
  exact ⟨hat, x, i, hx, hk⟩

/-- **A node manages an object at an address.** -/
def Presents (b : Bus) (n : NodeId) (t : TransportId) (a : Address) (o : ObjectId) : Prop :=
  b.At n t a ∧ ∃ x, b.node? n = some x ∧ x.managing = some o

/-- Whether a node manages something at an address. -/
def marks (b : Bus) (t : TransportId) (a : Address) (n : NodeId) : Bool :=
  match b.node? n with
  | none => false
  | some x =>
      x.managing.isSome && (b.transportsOf x).contains t && decide (b.addressOn n t = some a)

theorem marks_iff {b : Bus} {t : TransportId} {a : Address} {n : NodeId} :
    b.marks t a n = true ↔ ∃ o, b.Presents n t a o := by
  unfold marks Presents At
  cases hn : b.node? n with
  | none => simp
  | some x =>
      simp only [Bool.and_eq_true, List.contains_iff_mem, decide_eq_true_eq,
        Option.isSome_iff_exists, Option.some.injEq, exists_eq_left']
      constructor
      · rintro ⟨⟨⟨o, ho⟩, ht⟩, ha⟩
        exact ⟨o, ⟨ht, ha⟩, ho⟩
      · rintro ⟨o, ⟨ht, ha⟩, ho⟩
        exact ⟨⟨⟨o, ho⟩, ht⟩, ha⟩

/-- **What destroying `n` moves**: the nodes below it, if it has a parent. -/
def Moves (b : Bus) (n d : NodeId) : Prop :=
  b.forest.Below n d ∧ ∃ x, b.node? n = some x ∧ x.parent.isSome = true

/-- **What destroying `n` withdraws**: every name of its own, and every name of a moved node that
leads to a live value. -/
def Vacates (b : Bus) (n : NodeId) (t : TransportId) (a : Address) (k : String) : Prop :=
  b.Names n t a k ∨ ∃ d, b.Moves n d ∧ b.Offers d t a k

/-- Where destroying `n` clears what is managed. -/
def Clears (b : Bus) (n : NodeId) (t : TransportId) (a : Address) : Prop :=
  ∃ d o, (d = n ∨ b.Moves n d) ∧ b.Presents d t a o

/-- The ids of the nodes that destroying `n` moves, in the order in which they come to their new
addresses. -/
def movers (b : Bus) (n : NodeId) : List NodeId :=
  match b.node? n with
  | none => []
  | some x => if x.parent.isSome then b.forest.descendants n else []

/-! ## Comparing two buses -/

/-- A node that has the same and stands at the same place in its tree. -/
structure SameAt (b b' : Bus) (m : NodeId) : Prop where
  holdings : (b'.node? m).map Node.holdings = (b.node? m).map Node.holdings
  path : b'.forest.path m = b.forest.path m

/-- **Later buses**: what is live was live before, and transports stay in place. -/
structure Later (b b' : Bus) : Prop where
  servers : ∀ {t}, b'.isLiveServer t = true → b.isLiveServer t = true
  roots : ∀ t, b'.rootOf t = b.rootOf t
  kinds : ∀ t, (b'.loopback? t).isSome = (b.loopback? t).isSome
  values : ∀ {i}, b'.isLiveInterface i = true → b.isLiveInterface i = true

/-- **Later buses with something new**: the same for every id that was given out before. -/
structure LaterBelow (b b' : Bus) : Prop where
  servers : ∀ {t}, t < b.next → b'.isLiveServer t = true → b.isLiveServer t = true
  roots : ∀ {t}, t < b.next → b'.rootOf t = b.rootOf t
  kinds : ∀ {t}, t < b.next → (b'.loopback? t).isSome = (b.loopback? t).isSome
  values : ∀ {i}, i < b.next → b'.isLiveInterface i = true → b.isLiveInterface i = true

/-- **What an operation keeps**: a bus stays sound with everything held, and as long as names and
beliefs agree they go on to do so. -/
structure Keeps (b b' : Bus) : Prop where
  sound : b'.Sound
  held : b'.Held
  faithful : b.Faithful → b'.Faithful

theorem Keeps.refl {b : Bus} (hb : b.Sound) (hh : b.Held) : b.Keeps b := ⟨hb, hh, id⟩

theorem Keeps.trans {b b' b'' : Bus} (h : b.Keeps b') (h' : b'.Keeps b'') : b.Keeps b'' :=
  ⟨h'.sound, h'.held, h'.faithful ∘ h.faithful⟩

theorem Keeps.called {b b' b'' : Bus} (h : b.Keeps b') (hc : b'.Called b'') : b.Keeps b'' :=
  ⟨h.sound.called hc, h.held.called hc, fun hf => (h.faithful hf).called hc⟩

/-- **Only one node has changed**, to what `x'` has. -/
structure AtNode (b b' : Bus) (n : NodeId) (x x' : Node) : Prop where
  before : b.node? n = some x
  after : ∃ y, b'.node? n = some y ∧ y.holdings = x'.holdings
  path : b'.forest.path n = b.forest.path n
  others : ∀ m, m ≠ n → b.SameAt b' m
  later : b.Later b'

/-- **Nothing has happened** but that something new may be there, which has nothing. -/
structure Quiet (b b' : Bus) : Prop where
  later : b.LaterBelow b'
  old : ∀ {m x}, b.node? m = some x → b.SameAt b' m
  new : ∀ {m x'}, b.node? m = none → b'.node? m = some x' →
    x'.interfaces = [] ∧ x'.managing = none
  registered : ∀ t a k o, b'.Registered t a k o ↔ b.Registered t a k o
  managed : ∀ t a, b'.managed? t a = b.managed? t a

/-- **A name was dropped** from a node. -/
structure Dropped (b b' : Bus) (n : NodeId) (x : Node) (name : String) : Prop where
  node : b.AtNode b' n x (x.dropName name)
  registered : ∀ t a k o, b'.Registered t a k o ↔
    b.Registered t a k o ∧ ¬(b.At n t a ∧ k = name)
  managed : ∀ t a, b'.managed? t a = b.managed? t a

/-- **A node was unbound** from a transport. -/
structure Unbound (b b' : Bus) (n : NodeId) (x : Node) (t₀ : TransportId) : Prop where
  node : b.AtNode b' n x (x.unbindFrom t₀)
  registered : ∀ t a k o, b'.Registered t a k o ↔
    b.Registered t a k o ∧ ¬(t = t₀ ∧ b.Names n t a k)
  managed : ∀ t a o, b'.managed? t a = some o ↔
    b.managed? t a = some o ∧ ¬(t = t₀ ∧ ∃ o', b.Presents n t a o')

/-- **A node came to manage** an object, or none. -/
structure Managed (b b' : Bus) (n : NodeId) (x : Node) (object : Option ObjectId) : Prop where
  node : b.AtNode b' n x (x.manage object)
  registered : ∀ t a k o, b'.Registered t a k o ↔ b.Registered t a k o
  here : ∀ {t a}, b.At n t a → (b.loopback? t).isSome = true → b'.managed? t a = object
  elsewhere : ∀ {t a}, ¬b.At n t a → b'.managed? t a = b.managed? t a

/-- **A value was attached** to a node. -/
structure Attached (b b' : Bus) (n : NodeId) (x : Node) (name : String) (i : InterfaceId) :
    Prop where
  node : b.AtNode b' n x { x with interfaces := Entries.put name i x.interfaces }
  only : ∀ {t a k o}, b'.Registered t a k o →
    b.Registered t a k o ∨ (b.At n t a ∧ k = name ∧ o = some n)
  keeps : ∀ {t a k m}, b.Registered t a k (some m) → b.isLiveNode m = true →
    ¬(b.At n t a ∧ k = name) → b'.Registered t a k (some m)
  complete : ∀ {t a}, b.At n t a → (b.loopback? t).isSome = true →
    b'.Registered t a name (some n)
  managed : ∀ t a, b'.managed? t a = b.managed? t a

/-- **A node was bound** to a transport. -/
structure Bound (b b' : Bus) (n : NodeId) (x : Node) (t₀ : TransportId) : Prop where
  live : b.isLiveServer t₀ = true
  node : b.AtNode b' n x (x.bindTo t₀)
  only : ∀ {t a k o}, b'.Registered t a k o →
    b.Registered t a k o ∨ (t = t₀ ∧ b'.Offers n t a k ∧ o = some n)
  keeps : ∀ {t a k m}, b.Registered t a k (some m) → b.isLiveNode m = true →
    b'.Registered t a k (some m)
  complete : ∀ {a k}, b'.Offers n t₀ a k → (b.loopback? t₀).isSome = true →
    b'.Registered t₀ a k (some n)
  here : ∀ {a o}, b'.Presents n t₀ a o → (b.loopback? t₀).isSome = true →
    b'.managed? t₀ a = some o
  elsewhere : ∀ {t a}, ¬(t = t₀ ∧ ∃ o, b'.Presents n t a o) →
    b'.managed? t a = b.managed? t a

/-- **A node was destroyed.** -/
structure Destroyed (b b' : Bus) (n : NodeId) : Prop where
  later : b.Later b'
  servers : ∀ t, b'.isLiveServer t = b.isLiveServer t
  gone : b'.node? n = none
  others : ∀ m, m ≠ n → (b'.node? m).map Node.holdings = (b.node? m).map Node.holdings
  stays : ∀ m, m ≠ n → ¬b.Moves n m → b'.forest.path m = b.forest.path m
  only : ∀ {t a k o}, b'.Registered t a k o →
    (b.Registered t a k o ∧ ¬b.Vacates n t a k) ∨
      ∃ d, o = some d ∧ b.Moves n d ∧ b'.Offers d t a k
  keeps : ∀ {t a k m}, b.Registered t a k (some m) → m ≠ n → b.isLiveNode m = true →
    ¬b.Vacates n t a k → b'.Registered t a k (some m)
  complete : ∀ {t a k d}, b.Moves n d → b'.Offers d t a k → b.isLiveNode d = true →
    (b.loopback? t).isSome = true →
    (∀ k' o, b.Registered t a k' o → ¬b.Vacates n t a k' → o = some d) →
    (∀ d' k', b.Moves n d' → b'.Offers d' t a k' → d' = d) → b'.Registered t a k (some d)
  managed : ∀ {t a}, (b.loopback? t).isSome = true → ∀ o, b'.managed? t a = some o ↔
    match ((b.movers n).filter (b'.marks t a)).getLast? with
    | some d => b'.Presents d t a o
    | none => b.managed? t a = some o ∧ ¬b.Clears n t a

/-- **What an operation can do** to what nodes have and to what is registered, unless it destroys a
node. -/
inductive Effect (b b' : Bus) : Prop
  | quiet (h : b.Quiet b')
  | dropped {n : NodeId} {x : Node} {name : String} (h : b.Dropped b' n x name)
  | unbound {n : NodeId} {x : Node} {t : TransportId} (h : b.Unbound b' n x t)
  | managed {n : NodeId} {x : Node} {object : Option ObjectId} (h : b.Managed b' n x object)
  | attached {n : NodeId} {x : Node} {name : String} {i : InterfaceId}
      (h : b.Attached b' n x name i)
  | bound {n : NodeId} {x : Node} {t : TransportId} (h : b.Bound b' n x t)

/-! ## Where nodes stand -/

theorem at_iff {b : Bus} {n : NodeId} {x : Node} (hn : b.node? n = some x) {t : TransportId}
    {a : Address} : b.At n t a ↔ t ∈ b.transportsOf x ∧ b.addressOn n t = some a := by
  simp [At, hn]

theorem At.live {b : Bus} {n : NodeId} {t : TransportId} {a : Address} (h : b.At n t a) :
    b.isLiveServer t = true := by
  obtain ⟨x, -, ht, -⟩ := h
  exact live_of_mem_transportsOf ht

theorem At.address {b : Bus} {n : NodeId} {t : TransportId} {a : Address} (h : b.At n t a) :
    b.addressOn n t = some a := by
  obtain ⟨x, -, -, ha⟩ := h
  exact ha

/-- A node stands at one address of a transport. -/
theorem At.unique {b : Bus} {n : NodeId} {t : TransportId} {a a' : Address} (h : b.At n t a)
    (h' : b.At n t a') : a = a' :=
  Option.some.inj (h.address.symm.trans h'.address)

theorem mem_transportsOf {b : Bus} {x : Node} {t : TransportId} :
    t ∈ b.transportsOf x ↔ t ∈ x.servers ∧ b.isLiveServer t = true := List.mem_filter

theorem addressOn_congr {b b' : Bus} {m : NodeId} {t : TransportId}
    (hpath : b'.forest.path m = b.forest.path m) (hroot : b'.rootOf t = b.rootOf t) :
    b'.addressOn m t = b.addressOn m t := by
  rw [addressOn, addressOn, addressText, addressText, hpath, hroot]

theorem registered_lt {b : Bus} (hb : b.Sound) {t : TransportId} {a : Address} {k : String}
    {o : Option NodeId} (hr : b.Registered t a k o) : t < b.next := by
  obtain ⟨l, hl, -⟩ := hr
  have ht := transport?_of_loopback? hl
  unfold Bus.transport? at ht
  obtain ⟨s, hs, -⟩ := Option.map_eq_some_iff.1 ht
  exact hb.server_lt hs

/-! ## Telling two buses apart -/

theorem Later.refl (b : Bus) : b.Later b := ⟨id, fun _ => rfl, fun _ => rfl, id⟩

theorem Later.trans {b b' b'' : Bus} (h : b.Later b') (h' : b'.Later b'') : b.Later b'' :=
  ⟨fun hlive => h.servers (h'.servers hlive), fun t => (h'.roots t).trans (h.roots t),
    fun t => (h'.kinds t).trans (h.kinds t), fun hlive => h.values (h'.values hlive)⟩

theorem Later.below {b b' : Bus} (h : b.Later b') : b.LaterBelow b' :=
  ⟨fun _ => h.servers, fun _ => h.roots _, fun _ => h.kinds _, fun _ => h.values⟩

theorem Called.later {b b' : Bus} (h : b.Called b') : b.Later b' where
  servers hlive := by rwa [h.isLiveServer] at hlive
  roots := h.rootOf
  kinds := h.loopback?_isSome
  values hlive := by rwa [h.isLiveInterface] at hlive

theorem loopback?_congr {b b' : Bus} (h : b'.transports = b.transports) (t : TransportId) :
    b'.loopback? t = b.loopback? t := by
  rw [loopback?, loopback?, transport?, transport?, h]

/-- Other interface values, with no more of them live, and the same transports. -/
theorem later_of_values {b b' : Bus} (ht : b'.transports = b.transports)
    (hi : ∀ i, b'.isLiveInterface i = true → b.isLiveInterface i = true) : b.Later b' where
  servers hlive := by
    unfold isLiveServer at hlive ⊢
    rwa [ht] at hlive
  roots t := by rw [rootOf, rootOf, transport?, transport?, ht]
  kinds t := by rw [loopback?_congr ht]
  values := hi _

theorem laterBelow_of_values {b b' : Bus} (ht : b'.transports = b.transports)
    (hi : ∀ i, i < b.next → b'.isLiveInterface i = true → b.isLiveInterface i = true) :
    b.LaterBelow b' where
  servers _ hlive := by
    unfold isLiveServer at hlive ⊢
    rwa [ht] at hlive
  roots _ := by rw [rootOf, rootOf, transport?, transport?, ht]
  kinds _ := by rw [loopback?_congr ht]
  values := hi _

theorem sameAt_of_forest {b b' : Bus} (h : b'.forest = b.forest) (m : NodeId) : b.SameAt b' m :=
  ⟨by rw [node?, node?, h], by rw [h]⟩

theorem SameAt.node? {b b' : Bus} {m : NodeId} (h : b.SameAt b' m) {x : Node}
    (hx : b.node? m = some x) : ∃ x', b'.node? m = some x' ∧ x'.holdings = x.holdings := by
  have heq := h.holdings
  rw [hx] at heq
  exact Option.map_eq_some_iff.1 heq

theorem SameAt.symm {b b' : Bus} {m : NodeId} (h : b.SameAt b' m) : b'.SameAt b m :=
  ⟨h.holdings.symm, h.path.symm⟩

theorem sameAt_adjustNode (b : Bus) (n : NodeId) {change : Node → Node}
    (hc : Forest.KeepsPlace change) {m : NodeId} (hm : m ≠ n) :
    b.SameAt (b.adjustNode n change) m :=
  ⟨by rw [node?_adjustNode_of_ne b hm], Forest.path_adjust b.forest n hc m⟩

/-- A change of one node, whatever else happened to transports and interface values. -/
theorem atNode_of_adjust {b b' : Bus} {n : NodeId} {x x' : Node} {change : Node → Node}
    (hn : b.node? n = some x) (hforest : b'.forest = b.forest.adjust n change)
    (hc : Forest.KeepsPlace change) (hx : (change x).holdings = x'.holdings)
    (hlater : b.Later b') : b.AtNode b' n x x' where
  before := hn
  after := by
    refine ⟨change x, ?_, hx⟩
    rw [Bus.node?, hforest]
    exact node?_adjustNode_self hn change
  path := by rw [hforest]; exact Forest.path_adjust b.forest n hc n
  others m hm := by
    have hsame := sameAt_adjustNode b n hc hm
    exact ⟨by rw [← hsame.holdings, node?, hforest]; rfl, by rw [← hsame.path, hforest]; rfl⟩
  later := hlater

/-- Handles to a node are taken or let go. -/
theorem quiet_handles (b : Bus) (n : NodeId) (f : Nat → Nat) :
    b.Quiet (b.adjustNode n fun x => { x with handles := f x.handles }) where
  later := laterBelow_of_values rfl fun _ _ h => h
  old {m x} _ := by
    refine ⟨?_, Forest.path_adjust b.forest n (shrinks_handles b f).place m⟩
    rw [node?_adjustNode]
    split
    · rw [Option.map_map]
      rfl
    · rfl
  new {m x'} hm hm' := by
    obtain ⟨y, hy, -⟩ := Forest.get?_adjust_cases hm'
    rw [node?, hy] at hm
    cases hm
  registered _ _ _ _ := Iff.rfl
  managed _ _ := rfl

theorem addressOn_adjustNode (b : Bus) (n : NodeId) {change : Node → Node}
    (hc : Forest.KeepsPlace change) (m : NodeId) (t : TransportId) :
    (b.adjustNode n change).addressOn m t = b.addressOn m t :=
  addressOn_congr (Forest.path_adjust b.forest n hc m) rfl

theorem Held.adjustNode {b : Bus} (hb : b.Held) (n : NodeId) (change : Node → Node)
    (hc : IgnoresHandles change) : (b.adjustNode n change).Held where
  nodes {m x} hm := by
    obtain ⟨y, hy, rfl | ⟨-, rfl⟩⟩ := Forest.get?_adjust_cases hm
    · exact hb.nodes hy
    · rw [hc.handles]
      exact hb.nodes hy
  values := hb.values

theorem Held.setOwner {b : Bus} (hb : b.Held) (i : InterfaceId) (o : Option NodeId) :
    (b.setOwner i o).Held where
  nodes := hb.nodes
  values {j y} hj := by
    rw [interface?_setOwner] at hj
    split at hj
    · obtain ⟨z, hz, rfl⟩ := Option.map_eq_some_iff.1 hj
      have hpos := hb.values hz
      exact hpos
    · exact hb.values hj

end Bus

end ObjectBus
