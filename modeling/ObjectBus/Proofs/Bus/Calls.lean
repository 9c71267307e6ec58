import ObjectBus.Bus.Calls
import ObjectBus.Proofs.Forest.Paths
import ObjectBus.Proofs.Registry

/-!
# What calls change

A call changes what one transport holds, and nothing else: `Bus.Called` says so, and everything that
depends on the tree, on the interface values or on handles is the same after any number of calls.
This is true of orderly buses only, whose recorders have no hooks; a hook may do anything.

What the transports hold is read as two relations on the bus, `Bus.Registered` and `Bus.managed?`.
Most work of the bus on transports takes something away. `Bus.Withdraws` says what exactly, and it
adds up over calls one after the other.
-/

set_option autoImplicit false

namespace ObjectBus

/-! ## What transports hold -/

namespace Bus

/-- **A registration on a transport**: a name at an address, for a node. -/
def Registered (b : Bus) (t : TransportId) (a : Address) (k : String) (o : Option NodeId) : Prop :=
  ∃ l, b.loopback? t = some l ∧ l.Registers a k o

/-- What is registered can be looked up. -/
theorem registered_iff {b : Bus} {t : TransportId} {a : Address} {k : String} {o : Option NodeId} :
    b.Registered t a k o ↔ ((b.loopback? t).bind fun l => l.registry.get? a).map
      (fun r => (r.node, Members.has k r.interfaces)) = some (o, true) := by
  simp only [Registered, Loopback.Registers, Option.map_eq_some_iff, Option.bind_eq_some_iff,
    Prod.mk.injEq]
  constructor
  · rintro ⟨l, hl, r, hr, hn, hk⟩
    exact ⟨r, ⟨l, hl, hr⟩, hn, hk⟩
  · rintro ⟨r, ⟨l, hl, hr⟩, hn, hk⟩
    exact ⟨l, hl, r, hr, hn, hk⟩

instance (b : Bus) (t : TransportId) (a : Address) (k : String) (o : Option NodeId) :
    Decidable (b.Registered t a k o) := decidable_of_iff _ registered_iff.symm

/-- The object managed at an address of a transport. -/
def managed? (b : Bus) (t : TransportId) (a : Address) : Option ObjectId :=
  (b.loopback? t).bind fun l => Entries.get? a l.managed

/-- The address that a text stands for. -/
def readAddress (text : String) : Option Address := (Address.parse text).toOption

/-- **The address of a node on a transport**, if its names make one. -/
def addressOn (b : Bus) (n : NodeId) (t : TransportId) : Option Address :=
  readAddress (b.addressText n t)

/-- **Where a node stands**: it is bound to a live transport and has an address there. -/
def At (b : Bus) (n : NodeId) (t : TransportId) (a : Address) : Prop :=
  ∃ x, b.node? n = some x ∧ t ∈ b.transportsOf x ∧ b.addressOn n t = some a

/-- **Orderly buses**: what is listed in order is in order, the loopback transports are orderly, and
no recorder calls back. -/
structure Orderly (b : Bus) : Prop where
  nodes : Entries.Sorted b.forest.nodes
  interfaces : Entries.Sorted b.interfaces
  transports : Entries.Sorted b.transports
  loopbacks : ∀ t l, b.loopback? t = some l → l.Orderly
  hookless : ∀ t r, b.recorder? t = some r → r.hooks = []

end Bus

theorem readAddress_eq_some {text : String} {a : Address} :
    Bus.readAddress text = some a ↔ Address.parse text = .ok a := by
  unfold Bus.readAddress
  cases Address.parse text <;> simp [Except.toOption]

/-- The same transport as far as its place, its kind and its hooks go. -/
def Transport.Alike : Transport → Transport → Prop
  | .recorder r, .recorder r' => r'.root = r.root ∧ r'.hooks = r.hooks
  | .loopback l, .loopback l' => l'.root = l.root
  | _, _ => False

/-- The same transport with the same number of handles. -/
def Server.Alike (s s' : Server) : Prop :=
  s'.handles = s.handles ∧ s.transport.Alike s'.transport

theorem Transport.Alike.refl (s : Transport) : s.Alike s := by
  cases s with
  | recorder r => exact ⟨rfl, rfl⟩
  | loopback l => rfl

theorem Transport.Alike.trans {s s' s'' : Transport} (h : s.Alike s') (h' : s'.Alike s'') :
    s.Alike s'' := by
  cases s <;> cases s' <;> cases s'' <;> simp_all [Transport.Alike]

theorem Server.Alike.refl (s : Server) : s.Alike s := ⟨rfl, Transport.Alike.refl _⟩

theorem Server.Alike.trans {s s' s'' : Server} (h : s.Alike s') (h' : s'.Alike s'') :
    s.Alike s'' := ⟨h'.1.trans h.1, h.2.trans h'.2⟩

theorem Server.Alike.rel_refl (o : Option Server) : Option.Rel Server.Alike o o := by
  cases o with
  | none => exact Option.Rel.none
  | some s => exact Option.Rel.some (Server.Alike.refl s)

theorem Server.Alike.rel_trans {o o' o'' : Option Server} (h : Option.Rel Server.Alike o o')
    (h' : Option.Rel Server.Alike o' o'') : Option.Rel Server.Alike o o'' := by
  cases h with
  | none => exact h'
  | some h =>
      cases h' with
      | some h' => exact Option.Rel.some (h.trans h')

namespace Bus

/-! ## Only calls -/

/-- **Only transports were called**: the second bus is the first but for what transports hold. -/
structure Called (b b' : Bus) : Prop where
  forest : b'.forest = b.forest
  interfaces : b'.interfaces = b.interfaces
  next : b'.next = b.next
  alike : ∀ t, Option.Rel Server.Alike (Entries.get? t b.transports) (Entries.get? t b'.transports)
  orderly : b.Orderly → b'.Orderly

theorem Called.refl (b : Bus) : b.Called b where
  forest := rfl
  interfaces := rfl
  next := rfl
  alike _ := Server.Alike.rel_refl _
  orderly := id

theorem Called.trans {b b' b'' : Bus} (h : b.Called b') (h' : b'.Called b'') : b.Called b'' where
  forest := h'.forest.trans h.forest
  interfaces := h'.interfaces.trans h.interfaces
  next := h'.next.trans h.next
  alike t := Server.Alike.rel_trans (h.alike t) (h'.alike t)
  orderly hb := h'.orderly (h.orderly hb)

namespace Called

variable {b b' : Bus} (h : b.Called b')

include h

theorem node? (n : NodeId) : b'.node? n = b.node? n := by
  rw [Bus.node?, Bus.node?, h.forest]

theorem isLiveNode : b'.isLiveNode = b.isLiveNode := by
  funext n
  rw [Bus.isLiveNode, Bus.isLiveNode, h.forest]

theorem interface? (i : InterfaceId) : b'.interface? i = b.interface? i := by
  rw [Bus.interface?, Bus.interface?, h.interfaces]

theorem nameOf (i : InterfaceId) : b'.nameOf i = b.nameOf i := by
  rw [Bus.nameOf, Bus.nameOf, h.interface?]

theorem isLiveInterface : b'.isLiveInterface = b.isLiveInterface := by
  funext i
  rw [Bus.isLiveInterface, Bus.isLiveInterface, h.interface?]

theorem isLiveServer : b'.isLiveServer = b.isLiveServer := by
  funext t
  have ht := h.alike t
  unfold Bus.isLiveServer
  cases hs : Entries.get? t b.transports with
  | none =>
      rw [hs] at ht
      generalize Entries.get? t b'.transports = s' at ht
      cases ht
      rfl
  | some s =>
      rw [hs] at ht
      generalize Entries.get? t b'.transports = s' at ht
      cases ht with
      | some ht => simp only [ht.1]

theorem transportsOf (x : Node) : b'.transportsOf x = b.transportsOf x := by
  rw [Bus.transportsOf, Bus.transportsOf, h.isLiveServer]

theorem instancesOf (x : Node) : b'.instancesOf x = b.instancesOf x := by
  rw [Bus.instancesOf, Bus.instancesOf, h.isLiveInterface]

theorem transport? (t : TransportId) :
    Option.Rel Transport.Alike (b.transport? t) (b'.transport? t) := by
  have ht := h.alike t
  unfold Bus.transport?
  cases hs : Entries.get? t b.transports with
  | none =>
      rw [hs] at ht
      generalize Entries.get? t b'.transports = s' at ht
      cases ht
      exact Option.Rel.none
  | some s =>
      rw [hs] at ht
      generalize Entries.get? t b'.transports = s' at ht
      cases ht with
      | some ht => exact Option.Rel.some ht.2

theorem rootOf (t : TransportId) : b'.rootOf t = b.rootOf t := by
  have ht := h.transport? t
  unfold Bus.rootOf
  cases hs : b.transport? t with
  | none =>
      rw [hs] at ht
      generalize b'.transport? t = s' at ht
      cases ht
      rfl
  | some s =>
      rw [hs] at ht
      generalize b'.transport? t = s' at ht
      cases ht with
      | @some s s' ht =>
          cases s <;> cases s' <;> simp_all [Transport.Alike, Transport.root]

theorem addressText (n : NodeId) (t : TransportId) : b'.addressText n t = b.addressText n t := by
  rw [Bus.addressText, Bus.addressText, h.rootOf, h.forest]

theorem addressOn (n : NodeId) (t : TransportId) : b'.addressOn n t = b.addressOn n t := by
  rw [Bus.addressOn, Bus.addressOn, h.addressText]

end Called

/-! ## Replacing a transport -/

theorem transport?_adjustServer (b : Bus) (t t' : TransportId) (change : Server → Server) :
    (b.adjustServer t change).transport? t' =
      if t' = t then (Entries.get? t' b.transports).map fun s => (change s).transport
      else b.transport? t' := by
  unfold Bus.transport? adjustServer
  rw [Entries.get?_adjust]
  split
  · rw [Option.map_map]; rfl
  · rfl

theorem transport?_of_loopback? {b : Bus} {t : TransportId} {l : Loopback}
    (h : b.loopback? t = some l) : b.transport? t = some (.loopback l) := by
  unfold loopback? at h
  split at h
  · next h' => cases h; exact h'
  · cases h

theorem loopback?_of_transport? {b : Bus} {t : TransportId} {l : Loopback}
    (h : b.transport? t = some (.loopback l)) : b.loopback? t = some l := by
  rw [loopback?, h]

theorem recorder?_of_transport? {b : Bus} {t : TransportId} {r : Recorder}
    (h : b.transport? t = some (.recorder r)) : b.recorder? t = some r := by
  rw [recorder?, h]

theorem transport?_of_recorder? {b : Bus} {t : TransportId} {r : Recorder}
    (h : b.recorder? t = some r) : b.transport? t = some (.recorder r) := by
  unfold recorder? at h
  split at h
  · next h' => cases h; exact h'
  · cases h

/-- Replacing a transport by one that is alike, and as orderly, is a call. -/
theorem called_adjustServer {b : Bus} {t : TransportId} {s s' : Transport}
    (ht : b.transport? t = some s) (halike : s.Alike s')
    (horderly : ∀ l l', s = .loopback l → s' = .loopback l' → l.Orderly → l'.Orderly) :
    b.Called (b.adjustServer t fun r => { r with transport := s' }) where
  forest := rfl
  interfaces := rfl
  next := rfl
  alike t' := by
    unfold adjustServer
    rw [Entries.get?_adjust]
    split
    · next heq =>
        subst heq
        unfold Bus.transport? at ht
        obtain ⟨r, hr, rfl⟩ := Option.map_eq_some_iff.1 ht
        rw [hr]
        exact Option.Rel.some ⟨rfl, halike⟩
    · exact Server.Alike.rel_refl _
  orderly hb := by
    have hget : ∀ t', (b.adjustServer t fun r => { r with transport := s' }).transport? t' =
        if t' = t then some s' else b.transport? t' := by
      intro t'
      rw [transport?_adjustServer]
      split
      · next heq =>
          subst heq
          unfold Bus.transport? at ht
          obtain ⟨r, hr, -⟩ := Option.map_eq_some_iff.1 ht
          rw [hr]
          rfl
      · rfl
    refine ⟨hb.nodes, hb.interfaces, Entries.sorted_adjust hb.transports _ _, ?_, ?_⟩
    · intro t' l' hl'
      have h' := transport?_of_loopback? hl'
      rw [hget] at h'
      split at h'
      · cases h'
        cases s with
        | recorder r => exact absurd halike id
        | loopback l => exact horderly l l' rfl rfl (hb.loopbacks t l (loopback?_of_transport? ht))
      · exact hb.loopbacks t' l' (loopback?_of_transport? h')
    · intro t' r' hr'
      have h' := transport?_of_recorder? hr'
      rw [hget] at h'
      split at h'
      · cases h'
        cases s with
        | recorder r => exact halike.2.trans (hb.hookless t r (recorder?_of_transport? ht))
        | loopback l => exact absurd halike id
      · exact hb.hookless t' r' (recorder?_of_transport? h')

theorem called_writeTrace (b : Bus) (e : TraceEntry) : b.Called (b.writeTrace e) where
  forest := rfl
  interfaces := rfl
  next := rfl
  alike := (Called.refl b).alike
  orderly hb := ⟨hb.nodes, hb.interfaces, hb.transports, hb.loopbacks, hb.hookless⟩

end Bus

/-! ## What each call does to its transport -/

namespace Transport

/-- A transport after dropping a registration. -/
def dropped (text k : String) : Transport → Transport
  | .recorder r => .recorder (r.drop text k).2
  | .loopback l =>
      .loopback (match Bus.readAddress text with
        | none => l
        | some a => (l.unregister a k).2)

/-- A transport after setting or clearing what is managed. -/
def assigned (text : String) (object : Option ObjectId) : Transport → Transport
  | .recorder r => .recorder (r.manage text object)
  | .loopback l =>
      .loopback (match Bus.readAddress text with
        | none => l
        | some a => l.setManaged a object)

/-- A transport after a registration that is not refused. -/
def added (isLive : NodeId → Bool) (text : String) (node : Option NodeId) (k : String) :
    Transport → Except BusError Transport
  | .recorder r =>
      (Recorder.refusal text k (r.add text k).1).map fun _ => .recorder (r.add text k).2
  | .loopback l =>
      match Address.parse text with
      | .error e => .error (.transport e.message)
      | .ok a => (l.register isLive a node k).map .loopback

theorem alike_dropped (s : Transport) (text k : String) : s.Alike (s.dropped text k) := by
  cases s with
  | recorder r => exact ⟨rfl, rfl⟩
  | loopback l =>
      simp only [dropped, Alike]
      cases Bus.readAddress text with
      | none => rfl
      | some a => exact l.root_unregister a k

theorem alike_assigned (s : Transport) (text : String) (object : Option ObjectId) :
    s.Alike (s.assigned text object) := by
  cases s with
  | recorder r => exact ⟨rfl, rfl⟩
  | loopback l =>
      simp only [assigned, Alike]
      cases Bus.readAddress text with
      | none => rfl
      | some a => rfl

/-- What `added` is for a loopback transport that does not refuse. -/
theorem added_loopback {l : Loopback} {s' : Transport} {isLive : NodeId → Bool} {text k : String}
    {node : Option NodeId} (h : (Transport.loopback l).added isLive text node k = .ok s') :
    ∃ a l', Bus.readAddress text = some a ∧ l.register isLive a node k = .ok l' ∧
      s' = .loopback l' := by
  unfold added at h
  cases hp : Address.parse text with
  | error e => simp [hp] at h
  | ok a =>
      simp only [hp] at h
      cases hl : l.register isLive a node k with
      | error e => simp [hl, Except.map] at h
      | ok l' =>
          simp only [hl, Except.map, Except.ok.injEq] at h
          exact ⟨a, l', readAddress_eq_some.2 hp, hl, h.symm⟩

/-- What `added` is for a recorder that does not refuse. -/
theorem added_recorder {r : Recorder} {s' : Transport} {isLive : NodeId → Bool} {text k : String}
    {node : Option NodeId} (h : (Transport.recorder r).added isLive text node k = .ok s') :
    ∃ r', r.add text k = (.ok, r') ∧ s' = .recorder r' := by
  simp only [added] at h
  cases hadd : r.add text k with
  | mk outcome r' =>
      rw [hadd] at h
      cases outcome with
      | ok =>
          simp only [Recorder.refusal, Except.map, Except.ok.injEq] at h
          exact ⟨r', rfl, h.symm⟩
      | refused => simp [Recorder.refusal, Except.map] at h
      | duplicate => simp [Recorder.refusal, Except.map] at h

end Transport

theorem Recorder.alike_add (r : Recorder) (text k : String) :
    (Transport.recorder r).Alike (.recorder (r.add text k).2) := by
  unfold Recorder.add
  split
  · exact ⟨rfl, rfl⟩
  · split <;> exact ⟨rfl, rfl⟩

namespace Bus

/-- **One transport was called**: it is `s` now. -/
structure Sets (t : TransportId) (s : Transport) (b b' : Bus) : Prop where
  called : b.Called b'
  transport? : ∀ t', b'.transport? t' = if t' = t then some s else b.transport? t'

theorem Sets.self {b : Bus} {t : TransportId} {s : Transport} (ht : b.transport? t = some s) :
    Sets t s b b where
  called := Called.refl b
  transport? t' := by
    split
    · next h => rw [h, ht]
    · rfl

theorem sets_adjustServer {b : Bus} {t : TransportId} {s s' : Transport}
    (ht : b.transport? t = some s) (halike : s.Alike s')
    (horderly : ∀ l l', s = .loopback l → s' = .loopback l' → l.Orderly → l'.Orderly) :
    Sets t s' b (b.adjustServer t fun r => { r with transport := s' }) where
  called := called_adjustServer ht halike horderly
  transport? t' := by
    rw [transport?_adjustServer]
    split
    · next h =>
        subst h
        obtain ⟨r, hr, -⟩ := Option.map_eq_some_iff.1 ht
        rw [hr]
        rfl
    · rfl

theorem Sets.writeTrace {b b' : Bus} {t : TransportId} {s : Transport} (h : Sets t s b b')
    (e : TraceEntry) : Sets t s b (b'.writeTrace e) :=
  ⟨h.called.trans (called_writeTrace b' e), h.transport?⟩

variable {b : Bus} (hb : b.Orderly) (h : Host) {t : TransportId} {s : Transport}

include hb

theorem runHook_eq (on : CallKind) (interface : Option String) :
    b.runHook h t on interface = b := by
  unfold runHook
  split
  · rfl
  · next r hr => rw [hb.hookless t r hr]; rfl

/-! A recorder is changed and the call is written down; the hook that could follow is not there. -/

theorem dropAt_recorder {r : Recorder} (ht : b.transport? t = some (.recorder r))
    (text k : String) :
    b.dropAt h t text k = (b.setRecorder t (r.drop text k).2).writeTrace
      (.drop (r.drop text k).2.label text k (r.drop text k).1) := by
  have hsets : Sets t (.recorder (r.drop text k).2) b (b.setRecorder t (r.drop text k).2) :=
    sets_adjustServer ht (Transport.alike_dropped (.recorder r) text k) (fun _ _ h _ => by cases h)
  simp only [dropAt, callDrop, ht]
  rw [runHook_eq ((hsets.writeTrace _).called.orderly hb)]

theorem callManage_recorder {r : Recorder} (ht : b.transport? t = some (.recorder r)) (n : NodeId)
    (object : Option ObjectId) :
    b.callManage h t n object =
      (b.setRecorder t (r.manage (b.addressText n t) object)).writeTrace
        (.manage r.label (b.addressText n t) (match object with
          | none => .nothing
          | some o => if b.isLiveObject o then .object o else .gone)) := by
  have hsets : Sets t (.recorder (r.manage (b.addressText n t) object)) b
      (b.setRecorder t (r.manage (b.addressText n t) object)) :=
    sets_adjustServer ht (Transport.alike_assigned (.recorder r) _ _) (fun _ _ h _ => by cases h)
  simp only [callManage, ht]
  refine (runHook_eq ((hsets.writeTrace _).called.orderly hb) h _ _).trans ?_
  cases object <;> rfl

theorem callAdd_recorder {r : Recorder} (ht : b.transport? t = some (.recorder r)) (n : NodeId)
    (k : String) :
    b.callAdd h t n k =
      (Recorder.refusal (b.addressText n t) k (r.add (b.addressText n t) k).1,
        (b.setRecorder t (r.add (b.addressText n t) k).2).writeTrace
          (.add (r.add (b.addressText n t) k).2.label (b.addressText n t) k
            (r.add (b.addressText n t) k).1)) := by
  have halike := r.alike_add (b.addressText n t) k
  have hsets : Sets t (.recorder (r.add (b.addressText n t) k).2) b
      (b.setRecorder t (r.add (b.addressText n t) k).2) :=
    sets_adjustServer ht halike (fun _ _ h _ => by cases h)
  simp only [callAdd, ht]
  split
  · rw [runHook_eq ((hsets.writeTrace _).called.orderly hb)]
  · rfl

theorem dropAt_spec (ht : b.transport? t = some s) (text k : String) :
    Sets t (s.dropped text k) b (b.dropAt h t text k) := by
  cases s with
  | recorder r =>
      rw [dropAt_recorder hb h ht]
      exact (sets_adjustServer ht (Transport.alike_dropped (.recorder r) text k)
        (fun _ _ h _ => by cases h)).writeTrace _
  | loopback l =>
      simp only [dropAt, callDrop, ht, Transport.dropped, readAddress]
      cases Address.parse text with
      | error e => exact Sets.self ht
      | ok a =>
          refine sets_adjustServer ht (l.root_unregister a k) ?_
          rintro _ _ ⟨⟩ ⟨⟩ hl
          exact Loopback.orderly_unregister hl a k

omit hb in
theorem dropAt_of_none (ht : b.transport? t = none) (text k : String) :
    b.dropAt h t text k = b := by
  simp only [dropAt, callDrop, ht]

theorem callManage_spec (ht : b.transport? t = some s) (n : NodeId) (object : Option ObjectId) :
    Sets t (s.assigned (b.addressText n t) object) b (b.callManage h t n object) := by
  cases s with
  | recorder r =>
      rw [callManage_recorder hb h ht]
      exact (sets_adjustServer ht (Transport.alike_assigned (.recorder r) _ _)
        (fun _ _ h _ => by cases h)).writeTrace _
  | loopback l =>
      simp only [callManage, ht, Transport.assigned, readAddress]
      cases Address.parse (b.addressText n t) with
      | error e => exact Sets.self ht
      | ok a =>
          refine sets_adjustServer ht rfl ?_
          rintro _ _ ⟨⟩ ⟨⟩ hl
          exact Loopback.orderly_setManaged hl a object

omit hb in
theorem callManage_of_none (ht : b.transport? t = none) (n : NodeId) (object : Option ObjectId) :
    b.callManage h t n object = b := by
  simp only [callManage, ht]

/-- **Registering** succeeds and sets the transport, or is refused and sets nothing. -/
theorem callAdd_spec (ht : b.transport? t = some s) (n : NodeId) (k : String) :
    (∃ s', s.added b.isLiveNode (b.addressText n t) ((b.node? n).map fun _ => n) k = .ok s' ∧
        (b.callAdd h t n k).1 = .ok () ∧ Sets t s' b (b.callAdd h t n k).2) ∨
      ∃ e, s.added b.isLiveNode (b.addressText n t) ((b.node? n).map fun _ => n) k = .error e ∧
        (b.callAdd h t n k).1 = .error e ∧ Sets t s b (b.callAdd h t n k).2 := by
  cases s with
  | recorder r =>
      have halike := r.alike_add (b.addressText n t) k
      rw [callAdd_recorder hb h ht]
      cases hadd : r.add (b.addressText n t) k with
      | mk outcome r' =>
          rw [hadd] at halike
          have hsets : Sets t (.recorder r') b ((b.setRecorder t r').writeTrace
              (.add r'.label (b.addressText n t) k outcome)) :=
            (sets_adjustServer ht halike (fun _ _ h _ => by cases h)).writeTrace _
          simp only [Transport.added, hadd]
          cases outcome with
          | ok => exact Or.inl ⟨.recorder r', rfl, rfl, hsets⟩
          | refused =>
              rw [Recorder.add_not_ok hadd (by simp)] at hsets ⊢
              exact Or.inr ⟨_, rfl, rfl, hsets⟩
          | duplicate =>
              rw [Recorder.add_not_ok hadd (by simp)] at hsets ⊢
              exact Or.inr ⟨_, rfl, rfl, hsets⟩
  | loopback l =>
      simp only [callAdd, ht, Transport.added]
      cases Address.parse (b.addressText n t) with
      | error e => exact Or.inr ⟨_, rfl, rfl, Sets.self ht⟩
      | ok a =>
          cases hl : l.register b.isLiveNode a ((b.node? n).map fun _ => n) k with
          | error e =>
              simp only [hl]
              exact Or.inr ⟨e, rfl, rfl, Sets.self ht⟩
          | ok l' =>
              simp only [hl]
              refine Or.inl ⟨.loopback l', rfl, trivial, ?_⟩
              refine sets_adjustServer ht (Loopback.root_register hl) ?_
              rintro _ _ ⟨⟩ ⟨⟩ ho
              exact Loopback.orderly_register ho hl

omit hb in
theorem callAdd_of_none (ht : b.transport? t = none) (n : NodeId) (k : String) :
    b.callAdd h t n k = (.ok (), b) := by
  simp only [callAdd, ht]

end Bus

end ObjectBus
