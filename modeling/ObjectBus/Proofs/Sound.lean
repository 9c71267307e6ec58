import ObjectBus.Proofs.Run

/-!
# Sound buses

The invariant of all runs. In a sound bus the tree is well-formed and every id that occurs was given
out before. A name that a node has leads to a value of that name which knows its node, unless the
value is gone: a value that was moved out of its handle leaves a name behind that leads nowhere.

Sound buses are closed under the changes that operations are made of. That everything there is also
has a handle, `Bus.Held`, is said apart, because it fails while something is being destroyed.
-/

set_option autoImplicit false

namespace ObjectBus.Bus

/-- **Sound buses.** -/
structure Sound (b : Bus) : Prop where
  orderly : b.Orderly
  forest : b.forest.WellFormed
  table : ∀ {n x}, b.node? n = some x → Entries.Sorted x.interfaces
  entry_lt : ∀ {n x k i}, b.node? n = some x → Entries.get? k x.interfaces = some i → i < b.next
  entry : ∀ {n x k i y}, b.node? n = some x → Entries.get? k x.interfaces = some i →
    b.interface? i = some y → y.interface.name = k ∧ y.owner = some n
  value_lt : ∀ {i y}, b.interface? i = some y → i < b.next
  server_lt : ∀ {t s}, Entries.get? t b.transports = some s → t < b.next
  bound_lt : ∀ {n x t}, b.node? n = some x → t ∈ x.servers → t < b.next

/-- **Everything is held**: no node and no interface value is without a handle. -/
structure Held (b : Bus) : Prop where
  nodes : ∀ {n x}, b.node? n = some x → 0 < x.handles
  values : ∀ {i y}, b.interface? i = some y → 0 < y.handles

theorem Held.isLiveNode {b : Bus} (hb : b.Held) {n : NodeId} {x : Node}
    (hn : b.node? n = some x) : b.isLiveNode n = true := by
  have hget : b.forest.get? n = some x := hn
  rw [Bus.isLiveNode, Forest.isLive, hget]
  simpa using hb.nodes hn

theorem Held.isLiveInterface {b : Bus} (hb : b.Held) {i : InterfaceId} {y : Instance}
    (hi : b.interface? i = some y) : b.isLiveInterface i = true := by
  rw [Bus.isLiveInterface, hi]
  simpa using hb.values hi

theorem exists_of_isLiveNode {b : Bus} {n : NodeId} (h : b.isLiveNode n = true) :
    ∃ x, b.node? n = some x ∧ 0 < x.handles := by
  unfold Bus.isLiveNode Forest.isLive at h
  cases hn : b.forest.get? n with
  | none => rw [hn] at h; cases h
  | some x => rw [hn] at h; exact ⟨x, hn, by simpa using h⟩

theorem exists_of_isLiveInterface {b : Bus} {i : InterfaceId} (h : b.isLiveInterface i = true) :
    ∃ y, b.interface? i = some y ∧ 0 < y.handles := by
  unfold Bus.isLiveInterface at h
  cases hi : b.interface? i with
  | none => rw [hi] at h; cases h
  | some y => rw [hi] at h; exact ⟨y, rfl, by simpa using h⟩

theorem exists_of_isLiveServer {b : Bus} {t : TransportId} (h : b.isLiveServer t = true) :
    ∃ s, Entries.get? t b.transports = some s ∧ 0 < s.handles := by
  unfold Bus.isLiveServer at h
  cases ht : Entries.get? t b.transports with
  | none => rw [ht] at h; cases h
  | some s => rw [ht] at h; exact ⟨s, rfl, by simpa using h⟩

theorem sound_empty : Sound {} where
  orderly := ⟨Entries.sorted_nil, Entries.sorted_nil, Entries.sorted_nil, fun _ _ h => (nomatch h),
    fun _ _ h => (nomatch h)⟩
  forest := Forest.wellFormed_empty
  table h := by cases h
  entry_lt h := by cases h
  entry h := by cases h
  value_lt h := by cases h
  server_lt h := by cases h
  bound_lt h := by cases h

theorem held_empty : Held {} where
  nodes h := by cases h
  values h := by cases h

/-! ## Calls -/

theorem Called.exists_server {b b' : Bus} (h : b.Called b') {t : TransportId} {s' : Server}
    (hs' : Entries.get? t b'.transports = some s') :
    ∃ s, Entries.get? t b.transports = some s ∧ s.Alike s' := by
  have ht := h.alike t
  rw [hs'] at ht
  generalize Entries.get? t b.transports = o at ht
  cases ht with
  | some ht => exact ⟨_, rfl, ht⟩

theorem Sound.called {b b' : Bus} (hb : b.Sound) (h : b.Called b') : b'.Sound where
  orderly := h.orderly hb.orderly
  forest := h.forest ▸ hb.forest
  table hn := hb.table ((h.node? _).symm.trans hn)
  entry_lt hn hk := h.next ▸ hb.entry_lt ((h.node? _).symm.trans hn) hk
  entry hn hk hi := hb.entry ((h.node? _).symm.trans hn) hk ((h.interface? _).symm.trans hi)
  value_lt hi := h.next ▸ hb.value_lt ((h.interface? _).symm.trans hi)
  server_lt hs := by
    obtain ⟨s, hs, -⟩ := h.exists_server hs
    exact h.next ▸ hb.server_lt hs
  bound_lt hn ht := h.next ▸ hb.bound_lt ((h.node? _).symm.trans hn) ht

theorem Held.called {b b' : Bus} (hb : b.Held) (h : b.Called b') : b'.Held where
  nodes hn := hb.nodes ((h.node? _).symm.trans hn)
  values hi := hb.values ((h.interface? _).symm.trans hi)

/-! ## Nodes -/

/-- A change of a node that keeps its place, adds no name and binds to known transports only. -/
structure Shrinks (b : Bus) (change : Node → Node) : Prop where
  place : Forest.KeepsPlace change
  table : ∀ x, Entries.Sorted x.interfaces → Entries.Sorted (change x).interfaces
  entry : ∀ x k i, Entries.Sorted x.interfaces →
    Entries.get? k (change x).interfaces = some i → Entries.get? k x.interfaces = some i
  servers : ∀ x t, t ∈ (change x).servers → t ∈ x.servers ∨ t < b.next

theorem node?_adjustNode (b : Bus) (n m : NodeId) (change : Node → Node) :
    (b.adjustNode n change).node? m = if m = n then (b.node? m).map change else b.node? m :=
  Forest.get?_adjust b.forest n m change

theorem node?_adjustNode_self {b : Bus} {n : NodeId} {x : Node} (hn : b.node? n = some x)
    (change : Node → Node) : (b.adjustNode n change).node? n = some (change x) := by
  rw [node?_adjustNode, if_pos rfl, hn]
  rfl

theorem node?_adjustNode_of_ne (b : Bus) {n m : NodeId} (h : m ≠ n) (change : Node → Node) :
    (b.adjustNode n change).node? m = b.node? m := by
  rw [node?_adjustNode, if_neg h]

/-- A change that leaves a node as it is changes nothing. -/
theorem adjustNode_eq_self {b : Bus} {n : NodeId} {change : Node → Node}
    (h : ∀ x, b.node? n = some x → change x = x) : b.adjustNode n change = b := by
  have hnodes : Entries.adjust n change b.forest.nodes = b.forest.nodes := Entries.adjust_eq_self h
  unfold adjustNode Forest.adjust
  rw [hnodes]

theorem adjustNode_adjustNode (b : Bus) (n : NodeId) (f g : Node → Node) :
    (b.adjustNode n f).adjustNode n g = b.adjustNode n (g ∘ f) := by
  unfold adjustNode Forest.adjust
  simp only [Entries.adjust_adjust]

theorem Sound.adjustNode {b : Bus} (hb : b.Sound) (n : NodeId) {change : Node → Node}
    (hc : b.Shrinks change) : (b.adjustNode n change).Sound := by
  have hnode : ∀ {m x}, (b.adjustNode n change).node? m = some x →
      ∃ y, b.node? m = some y ∧ (x = y ∨ m = n ∧ x = change y) :=
    fun h => Forest.get?_adjust_cases h
  have hentry : ∀ {m x k i}, (b.adjustNode n change).node? m = some x →
      Entries.get? k x.interfaces = some i →
      ∃ y, b.node? m = some y ∧ Entries.get? k y.interfaces = some i := by
    intro m x k i hm hk
    obtain ⟨y, hy, rfl | ⟨-, rfl⟩⟩ := hnode hm
    · exact ⟨x, hy, hk⟩
    · exact ⟨y, hy, hc.entry y k i (hb.table hy) hk⟩
  refine ⟨hb.orderly.adjustNode n change, hb.forest.adjust n hc.place, ?_, ?_, ?_, hb.value_lt,
    hb.server_lt, ?_⟩
  · intro m x hm
    obtain ⟨y, hy, rfl | ⟨-, rfl⟩⟩ := hnode hm
    · exact hb.table hy
    · exact hc.table y (hb.table hy)
  · intro m x k i hm hk
    obtain ⟨y, hy, hk⟩ := hentry hm hk
    exact hb.entry_lt hy hk
  · intro m x k i y hm hk hi
    obtain ⟨z, hz, hk⟩ := hentry hm hk
    exact hb.entry hz hk hi
  · intro m x t hm ht
    obtain ⟨y, hy, rfl | ⟨-, rfl⟩⟩ := hnode hm
    · exact hb.bound_lt hy ht
    · rcases hc.servers y t ht with ht | ht
      · exact hb.bound_lt hy ht
      · exact ht

theorem shrinks_handles (b : Bus) (f : Nat → Nat) :
    b.Shrinks fun x => { x with handles := f x.handles } :=
  ⟨⟨fun _ => rfl, fun _ => rfl, fun _ => rfl⟩, fun _ h => h, fun _ _ _ _ h => h,
    fun _ _ h => Or.inl h⟩

theorem shrinks_drop (b : Bus) (name : String) : b.Shrinks (Node.dropName name) := by
  refine ⟨⟨fun _ => rfl, fun _ => rfl, fun _ => rfl⟩, fun x h => Entries.sorted_drop h name, ?_,
    fun _ _ h => Or.inl h⟩
  intro x k i hs hk
  rw [Node.interfaces_dropName, Entries.get?_drop hs] at hk
  split at hk
  · cases hk
  · exact hk

theorem shrinks_managing (b : Bus) (object : Option ObjectId) :
    b.Shrinks (Node.manage object) :=
  ⟨⟨fun _ => rfl, fun _ => rfl, fun _ => rfl⟩, fun _ h => h, fun _ _ _ _ h => h,
    fun _ _ h => Or.inl h⟩

theorem shrinks_unbind (b : Bus) (t : TransportId) :
    b.Shrinks (Node.unbindFrom t) :=
  ⟨⟨fun _ => rfl, fun _ => rfl, fun _ => rfl⟩, fun _ h => h, fun _ _ _ _ h => h,
    fun _ _ h => Or.inl (List.mem_filter.1 h).1⟩

theorem shrinks_bind {b : Bus} {t : TransportId} (ht : t < b.next) :
    b.Shrinks (Node.bindTo t) := by
  refine ⟨⟨fun _ => rfl, fun _ => rfl, fun _ => rfl⟩, fun _ h => h, fun _ _ _ _ h => h, ?_⟩
  intro x u hu
  rcases List.mem_append.1 hu with hu | hu
  · exact Or.inl hu
  · exact Or.inr (List.mem_singleton.1 hu ▸ ht)

theorem Sound.grow {b : Bus} (hb : b.Sound) (name : String) {parent : Option NodeId}
    (hp : ∀ p, parent = some p → (b.node? p).isSome) {servers : List TransportId}
    (hservers : ∀ t ∈ servers, t < b.next) :
    (b.withForest (b.forest.grow name parent servers).2).Sound := by
  have hnode : ∀ {m x}, (b.withForest (b.forest.grow name parent servers).2).node? m = some x →
      x = Forest.seedling name parent servers ∨
        ∃ y, b.node? m = some y ∧ x.interfaces = y.interfaces ∧ x.servers = y.servers := by
    intro m x hm
    have hm' : (b.forest.grow name parent servers).2.get? m = some x := hm
    rw [Forest.get?_grow hb.forest name hp] at hm'
    split at hm'
    · exact Or.inl (Option.some.inj hm').symm
    · obtain ⟨y, hy, rfl⟩ := Option.map_eq_some_iff.1 hm'
      exact Or.inr ⟨y, hy, by split <;> rfl, by split <;> rfl⟩
  have hforest := hb.forest.grow name hp servers
  refine ⟨⟨hforest.sorted, hb.orderly.interfaces, hb.orderly.transports, hb.orderly.loopbacks,
    hb.orderly.hookless⟩, hforest, ?_, ?_, ?_, hb.value_lt, hb.server_lt, ?_⟩
  · intro m x hm
    rcases hnode hm with rfl | ⟨y, hy, htable, -⟩
    · exact Entries.sorted_nil
    · exact htable ▸ hb.table hy
  · intro m x k i hm hk
    rcases hnode hm with rfl | ⟨y, hy, htable, -⟩
    · cases hk
    · exact hb.entry_lt hy (htable ▸ hk)
  · intro m x k i v hm hk hi
    rcases hnode hm with rfl | ⟨y, hy, htable, -⟩
    · cases hk
    · exact hb.entry hy (htable ▸ hk) hi
  · intro m x t hm ht
    rcases hnode hm with rfl | ⟨y, hy, -, hbound⟩
    · exact hservers t ht
    · exact hb.bound_lt hy (hbound ▸ ht)

theorem node?_uprooted {b : Bus} (hb : b.Sound) {n : NodeId} {x : Node} (hn : b.node? n = some x)
    (m : NodeId) : (b.uprooted n x).node? m =
      if m = n then none else (b.node? m).map (Forest.movedUp n x m) :=
  Forest.get?_uproot hb.forest hn m

theorem Sound.uprooted {b : Bus} (hb : b.Sound) {n : NodeId} {x : Node} (hn : b.node? n = some x) :
    (b.uprooted n x).Sound := by
  have hnode : ∀ {m y}, (b.uprooted n x).node? m = some y →
      ∃ z, b.node? m = some z ∧ y.interfaces = z.interfaces ∧ y.servers = z.servers := by
    intro m y hm
    rw [node?_uprooted hb hn] at hm
    split at hm
    · cases hm
    · obtain ⟨z, hz, rfl⟩ := Option.map_eq_some_iff.1 hm
      exact ⟨z, hz, rfl, rfl⟩
  refine ⟨hb.orderly.uprooted hb.forest n x, hb.forest.uproot hn, ?_, ?_, ?_, hb.value_lt,
    hb.server_lt, ?_⟩
  · intro m y hm
    obtain ⟨z, hz, htable, -⟩ := hnode hm
    exact htable ▸ hb.table hz
  · intro m y k i hm hk
    obtain ⟨z, hz, htable, -⟩ := hnode hm
    exact hb.entry_lt hz (htable ▸ hk)
  · intro m y k i v hm hk hi
    obtain ⟨z, hz, htable, -⟩ := hnode hm
    exact hb.entry hz (htable ▸ hk) hi
  · intro m y t hm ht
    obtain ⟨z, hz, -, hbound⟩ := hnode hm
    exact hb.bound_lt hz (hbound ▸ ht)

/-! ## Interface values -/

/-- Whether a name of some node leads to a value. -/
def Named (b : Bus) (i : InterfaceId) : Prop :=
  ∃ n x k, b.node? n = some x ∧ Entries.get? k x.interfaces = some i

/-- A value that some name leads to knows where it is attached. -/
theorem Sound.owner_of_named {b : Bus} (hb : b.Sound) {i : InterfaceId} {y : Instance}
    (hi : b.interface? i = some y) (hn : b.Named i) : ∃ n, y.owner = some n := by
  obtain ⟨n, x, k, hn, hk⟩ := hn
  exact ⟨n, (hb.entry hn hk hi).2⟩

theorem interface?_adjustInterface (b : Bus) (i j : InterfaceId) (change : Instance → Instance) :
    (b.adjustInterface i change).interface? j =
      if j = i then (b.interface? j).map change else b.interface? j :=
  Entries.get?_adjust i j change b.interfaces

/-- Interface values may change as long as those that names lead to keep their name and owner. -/
theorem Sound.adjustInterface {b : Bus} (hb : b.Sound) (i : InterfaceId)
    {change : Instance → Instance}
    (hc : b.Named i → ∀ y, (change y).interface.name = y.interface.name ∧
      (change y).owner = y.owner) : (b.adjustInterface i change).Sound := by
  refine ⟨⟨hb.orderly.nodes, Entries.sorted_adjust hb.orderly.interfaces i change,
    hb.orderly.transports, hb.orderly.loopbacks, hb.orderly.hookless⟩, hb.forest, hb.table,
    hb.entry_lt, ?_, ?_, hb.server_lt, hb.bound_lt⟩
  · intro n x k j y hn hk hj
    rw [interface?_adjustInterface] at hj
    split at hj
    · next hji =>
        subst hji
        obtain ⟨z, hz, rfl⟩ := Option.map_eq_some_iff.1 hj
        obtain ⟨hname, howner⟩ := hc ⟨n, x, k, hn, hk⟩ z
        rw [hname, howner]
        exact hb.entry hn hk hz
    · exact hb.entry hn hk hj
  · intro j y hj
    rw [interface?_adjustInterface] at hj
    split at hj
    · obtain ⟨z, hz, -⟩ := Option.map_eq_some_iff.1 hj
      exact hb.value_lt hz
    · exact hb.value_lt hj

theorem Sound.dropValue {b : Bus} (hb : b.Sound) (i : InterfaceId) :
    Sound { b with interfaces := Entries.drop i b.interfaces } := by
  have hsub : ∀ {j y}, Entries.get? j (Entries.drop i b.interfaces) = some y →
      b.interface? j = some y := by
    intro j y hj
    rw [Entries.get?_drop hb.orderly.interfaces] at hj
    split at hj
    · cases hj
    · exact hj
  exact ⟨⟨hb.orderly.nodes, Entries.sorted_drop hb.orderly.interfaces i, hb.orderly.transports,
    hb.orderly.loopbacks, hb.orderly.hookless⟩, hb.forest, hb.table, hb.entry_lt,
    fun hn hk hj => hb.entry hn hk (hsub hj), fun hj => hb.value_lt (hsub hj), hb.server_lt,
    hb.bound_lt⟩

theorem interface?_newInstance (b : Bus) (x : Instance) (j : InterfaceId) :
    (b.newInstance x).2.interface? j = if j = b.next then some x else b.interface? j := by
  unfold newInstance interface?
  split
  · next h =>
      rw [h]
      exact Entries.get?_put_self _ _ _
  · next h => exact Entries.get?_put_of_ne h _ _

/-- A new value has an id that no name leads to. -/
theorem Sound.newInstance {b : Bus} (hb : b.Sound) (x : Instance) :
    (b.newInstance x).2.Sound := by
  refine ⟨⟨hb.orderly.nodes, Entries.sorted_put hb.orderly.interfaces _ _, hb.orderly.transports,
    hb.orderly.loopbacks, hb.orderly.hookless⟩, hb.forest, hb.table, ?_, ?_, ?_, ?_, ?_⟩
  · exact fun hn hk => Nat.lt_succ_of_lt (hb.entry_lt hn hk)
  · intro n y k i z hn hk hi
    rw [interface?_newInstance, if_neg (Nat.ne_of_lt (hb.entry_lt hn hk))] at hi
    exact hb.entry hn hk hi
  · intro i y hi
    rw [interface?_newInstance] at hi
    split at hi
    · next h => exact h ▸ Nat.lt_succ_self _
    · exact Nat.lt_succ_of_lt (hb.value_lt hi)
  · exact fun hs => Nat.lt_succ_of_lt (hb.server_lt hs)
  · exact fun hn ht => Nat.lt_succ_of_lt (hb.bound_lt hn ht)

/-! ## Transports -/

theorem get?_newTransport (b : Bus) (s : Transport) (t : TransportId) :
    Entries.get? t (b.newTransport s).2.transports =
      if t = b.next then some { transport := s } else Entries.get? t b.transports := by
  unfold newTransport
  split
  · next h =>
      rw [h]
      exact Entries.get?_put_self _ _ _
  · next h => exact Entries.get?_put_of_ne h _ _

theorem transport?_newTransport (b : Bus) (s : Transport) (t : TransportId) :
    (b.newTransport s).2.transport? t = if t = b.next then some s else b.transport? t := by
  rw [transport?, get?_newTransport, transport?]
  split <;> rfl

theorem loopback?_newTransport_of_ne (b : Bus) (s : Transport) {t : TransportId}
    (ht : t ≠ b.next) : (b.newTransport s).2.loopback? t = b.loopback? t := by
  rw [loopback?, loopback?, transport?_newTransport, if_neg ht]

theorem Sound.newTransport {b : Bus} (hb : b.Sound) {s : Transport}
    (hl : ∀ l, s = .loopback l → l.Orderly) (hr : ∀ r, s = .recorder r → r.hooks = []) :
    (b.newTransport s).2.Sound := by
  refine ⟨⟨hb.orderly.nodes, hb.orderly.interfaces, Entries.sorted_put hb.orderly.transports _ _,
    ?_, ?_⟩, hb.forest, hb.table, ?_, hb.entry, ?_, ?_, ?_⟩
  · intro t l h
    have h := transport?_of_loopback? h
    rw [transport?_newTransport] at h
    split at h
    · exact hl l (Option.some.inj h)
    · exact hb.orderly.loopbacks t l (loopback?_of_transport? h)
  · intro t r h
    have h := transport?_of_recorder? h
    rw [transport?_newTransport] at h
    split at h
    · exact hr r (Option.some.inj h)
    · exact hb.orderly.hookless t r (recorder?_of_transport? h)
  · exact fun hn hk => Nat.lt_succ_of_lt (hb.entry_lt hn hk)
  · exact fun hi => Nat.lt_succ_of_lt (hb.value_lt hi)
  · intro t r h
    rw [get?_newTransport] at h
    split at h
    · next h' => exact h' ▸ Nat.lt_succ_self _
    · exact Nat.lt_succ_of_lt (hb.server_lt h)
  · exact fun hn ht => Nat.lt_succ_of_lt (hb.bound_lt hn ht)

theorem transport?_adjustHandles (b : Bus) (t u : TransportId) (f : Nat → Nat) :
    (b.adjustServer t fun s => { s with handles := f s.handles }).transport? u =
      b.transport? u := by
  rw [transport?_adjustServer]
  split <;> rfl

/-- Handles to a transport are taken and let go. -/
theorem Sound.adjustHandles {b : Bus} (hb : b.Sound) (t : TransportId) (f : Nat → Nat) :
    (b.adjustServer t fun s => { s with handles := f s.handles }).Sound := by
  refine ⟨⟨hb.orderly.nodes, hb.orderly.interfaces, Entries.sorted_adjust hb.orderly.transports _ _,
    ?_, ?_⟩, hb.forest, hb.table, hb.entry_lt, hb.entry, hb.value_lt, ?_, hb.bound_lt⟩
  · intro u l h
    refine hb.orderly.loopbacks u l (loopback?_of_transport? ?_)
    rw [← transport?_adjustHandles b t u f]
    exact transport?_of_loopback? h
  · intro u r h
    refine hb.orderly.hookless u r (recorder?_of_transport? ?_)
    rw [← transport?_adjustHandles b t u f]
    exact transport?_of_recorder? h
  · intro u s h
    have h' : Entries.get? u (Entries.adjust t _ b.transports) = some s := h
    rw [Entries.get?_adjust] at h'
    split at h'
    · obtain ⟨r, hr, -⟩ := Option.map_eq_some_iff.1 h'
      exact hb.server_lt hr
    · exact hb.server_lt h'

end ObjectBus.Bus
