import ObjectBus.Proofs.Arena
import ObjectBus.Proofs.Effect.Destruction

/-!
# What destroying a node asks of transports

Destroying a node is a list of calls to transports, made one after the other whatever is answered,
and in between some changes of the tree and of the interface values. `Makes` runs such a list; it
lets the bus change between two calls, but transports change by calls only. Each call is made when
the address in it is the one of its node, so a node that moves leaves its old address before the
tree is rewritten, and comes to its new one after that.

`NodeCall.makeAll` makes a list of calls with nothing in between. The loops of the program do the
same (`foldl_eq_makeAll`), because what they look up on the way, names and addresses, is not changed
by calls. So the list is known before the first call is made, and no answer can shorten it:
`destruction_calls` puts the three lists together, that of the node itself, that of the withdrawals,
and that of the registrations, and says what is in each.
-/

set_option autoImplicit false

namespace ObjectBus

/-- **What a transport is asked for a node** when something is destroyed, with the address of the
node at this time. -/
inductive NodeCall where
  | drop (transport : TransportId) (node : NodeId) (address name : String)
  | add (transport : TransportId) (node : NodeId) (address name : String)
  | manage (transport : TransportId) (node : NodeId) (address : String) (object : Option ObjectId)
  deriving DecidableEq

namespace NodeCall

/-- The transport that is asked. -/
def transport : NodeCall → TransportId
  | drop t _ _ _ | add t _ _ _ | manage t _ _ _ => t

/-- The node that it is asked for. -/
def node : NodeCall → NodeId
  | drop _ n _ _ | add _ n _ _ | manage _ n _ _ => n

/-- The address in it. -/
def address : NodeCall → String
  | drop _ _ a _ | add _ _ a _ | manage _ _ a _ => a

/-- **The bus after a call**, whatever is answered. -/
def make (h : Host) : NodeCall → Bus → Bus
  | drop t _ a k, b => b.dropAt h t a k
  | add t n _ k, b => (b.callAdd h t n k).2
  | manage t n _ o, b => b.callManage h t n o

/-- The bus after calls that are made in turn. -/
def makeAll (h : Host) (rs : List NodeCall) (b : Bus) : Bus :=
  rs.foldl (fun b r => r.make h b) b

/-- **The address in a call** is that of its node, on the transport that is asked. -/
def IsAddressed (r : NodeCall) (b : Bus) : Prop := r.address = b.addressText r.node r.transport

@[simp] theorem isAddressed_drop {b : Bus} {t : TransportId} {n : NodeId} {a k : String} :
    (drop t n a k).IsAddressed b ↔ a = b.addressText n t := Iff.rfl

@[simp] theorem isAddressed_add {b : Bus} {t : TransportId} {n : NodeId} {a k : String} :
    (add t n a k).IsAddressed b ↔ a = b.addressText n t := Iff.rfl

@[simp] theorem isAddressed_manage {b : Bus} {t : TransportId} {n : NodeId} {a : String}
    {o : Option ObjectId} : (manage t n a o).IsAddressed b ↔ a = b.addressText n t := Iff.rfl

/-- What a recorder with a label writes down of a call, whatever it answers. -/
def Notes (label : String) : NodeCall → TraceEntry → Prop
  | drop _ _ a k, e => ∃ present, e = .drop label a k present
  | add _ _ a k, e => ∃ outcome, e = .add label a k outcome
  | manage _ _ a _, e => ∃ mark, e = .manage label a mark

end NodeCall

/-- The label of a recorder. -/
def Transport.label? : Transport → Option String
  | .recorder r => some r.label
  | .loopback _ => none

namespace Bus

/-- The label of the recorder that a transport is. -/
def label? (b : Bus) (t : TransportId) : Option String := (b.transport? t).bind (·.label?)

/-- **Nothing is asked of transports**, and nothing is written down. -/
structure Silent (b b' : Bus) : Prop where
  transports : b'.transports = b.transports
  desk : b'.desk = b.desk
  orderly : b.Orderly → b'.Orderly

theorem Silent.label? {b b' : Bus} (h : b.Silent b') (t : TransportId) :
    b'.label? t = b.label? t := by
  rw [Bus.label?, Bus.label?, transport?, transport?, h.transports]

end Bus

/-- **What is written down of calls**: one entry for each call to a recorder, in order, and nothing
for the others. -/
def NodeCall.Recorded (b : Bus) (rs : List NodeCall) (entries : List TraceEntry) : Prop :=
  List.Forall₂ (fun r e => ∃ label, b.label? r.transport = some label ∧ r.Notes label e)
    (rs.filter fun r => (b.label? r.transport).isSome) entries

/-- **A bus that makes calls in turn**, each when the address in it is that of its node. Between two
calls the bus may change, but nothing is asked of transports then. -/
inductive Makes (h : Host) : Bus → List NodeCall → Bus → Prop
  | done (b : Bus) : Makes h b [] b
  | call {b c : Bus} {r : NodeCall} {rs : List NodeCall} (hr : r.IsAddressed b)
      (hrest : Makes h (r.make h b) rs c) : Makes h b (r :: rs) c
  | silent {b b' c : Bus} {rs : List NodeCall} (hb : b.Silent b') (hrest : Makes h b' rs c) :
      Makes h b rs c

/-! ## One call -/

theorem Recorder.label_add (r : Recorder) (text k : String) : (r.add text k).2.label = r.label := by
  unfold Recorder.add
  split
  · rfl
  · split <;> rfl

theorem Transport.label?_dropped (s : Transport) (text k : String) :
    (s.dropped text k).label? = s.label? := by
  cases s <;> simp only [dropped, label?, Recorder.drop]

theorem Transport.label?_assigned (s : Transport) (text : String) (object : Option ObjectId) :
    (s.assigned text object).label? = s.label? := by
  cases s <;> simp only [assigned, label?, Recorder.manage]

theorem Transport.label?_added {s s' : Transport} {isLive : NodeId → Bool} {text k : String}
    {node : Option NodeId} (h : s.added isLive text node k = .ok s') : s'.label? = s.label? := by
  cases s with
  | recorder r =>
      obtain ⟨r', hadd, rfl⟩ := added_recorder h
      have hlabel := r.label_add text k
      rw [hadd] at hlabel
      exact congrArg some hlabel
  | loopback l =>
      obtain ⟨a, l', -, -, rfl⟩ := added_loopback h
      rfl

namespace NodeCall

section One

variable {b : Bus} (hb : b.Orderly) (h : Host) (r : NodeCall)

theorem make_of_none (ht : b.transport? r.transport = none) : r.make h b = b := by
  cases r with
  | drop t n a k => exact Bus.dropAt_of_none h ht a k
  | add t n a k => exact congrArg Prod.snd (Bus.callAdd_of_none h ht n k)
  | manage t n a o => exact Bus.callManage_of_none h ht n o

include hb

theorem called_make : b.Called (r.make h b) := by
  cases r with
  | drop t n a k => exact (Bus.withdraws_dropAt hb h t a k).called
  | add t n a k => exact Bus.called_callAdd hb h t n k
  | manage t n a o => exact Bus.called_callManage hb h t n o

/-- A call concerns its transport, which keeps its label. -/
theorem sets_make {s : Transport} (ht : b.transport? r.transport = some s) :
    ∃ s', Bus.Sets r.transport s' b (r.make h b) ∧ s'.label? = s.label? := by
  cases r with
  | drop t n a k => exact ⟨_, Bus.dropAt_spec hb h ht a k, s.label?_dropped a k⟩
  | manage t n a o =>
      exact ⟨_, Bus.callManage_spec hb h ht n o, s.label?_assigned (b.addressText n t) o⟩
  | add t n a k =>
      rcases Bus.callAdd_spec hb h ht n k with ⟨s', hs', -, hsets⟩ | ⟨e, -, -, hsets⟩
      · exact ⟨s', hsets, Transport.label?_added hs'⟩
      · exact ⟨s, hsets, rfl⟩

theorem label?_make (t : TransportId) : (r.make h b).label? t = b.label? t := by
  cases ht : b.transport? r.transport with
  | none => rw [make_of_none h r ht]
  | some s =>
      obtain ⟨s', hsets, hlabel⟩ := sets_make hb h r ht
      rw [Bus.label?, Bus.label?, hsets.transport?]
      split
      · next heq => rw [heq, ht, Option.bind_some, Option.bind_some, hlabel]
      · rfl

/-- **A recorder writes the call down**, whatever it answers. -/
theorem trace_make (hr : r.IsAddressed b) {label : String}
    (hl : b.label? r.transport = some label) :
    ∃ e, r.Notes label e ∧ (r.make h b).desk.trace = b.desk.trace ++ [e] := by
  obtain ⟨s, ht, hs⟩ := Option.bind_eq_some_iff.1 hl
  cases s with
  | loopback l => cases hs
  | recorder x =>
      cases hs
      cases r with
      | drop t n a k =>
          have heq := Bus.dropAt_recorder hb h ht a k
          exact ⟨_, ⟨_, rfl⟩, congrArg (·.desk.trace) heq⟩
      | add t n a k =>
          have heq := congrArg Prod.snd (Bus.callAdd_recorder hb h ht n k)
          simp only [x.label_add] at heq
          rw [isAddressed_add.1 hr]
          exact ⟨_, ⟨_, rfl⟩, congrArg (·.desk.trace) heq⟩
      | manage t n a o =>
          have heq := Bus.callManage_recorder hb h ht n o
          rw [isAddressed_manage.1 hr]
          exact ⟨_, ⟨_, rfl⟩, congrArg (·.desk.trace) heq⟩

omit hb in
/-- A loopback transport writes nothing down. -/
theorem trace_make_of_none (hl : b.label? r.transport = none) :
    (r.make h b).desk.trace = b.desk.trace := by
  cases ht : b.transport? r.transport with
  | none => rw [make_of_none h r ht]
  | some s =>
      rw [Bus.label?, ht] at hl
      cases s with
      | recorder x => cases hl
      | loopback l =>
          cases r with
          | drop t n a k =>
              have ht' : b.transport? t = some (.loopback l) := ht
              simp only [make, Bus.dropAt, Bus.callDrop, ht']
              cases Address.parse a <;> rfl
          | add t n a k =>
              have ht' : b.transport? t = some (.loopback l) := ht
              simp only [make, Bus.callAdd, ht']
              split
              · rfl
              · split <;> rfl
          | manage t n a o =>
              have ht' : b.transport? t = some (.loopback l) := ht
              simp only [make, Bus.callManage, ht']
              split <;> rfl

end One

/-! ## Calls in turn -/

section All

variable {b : Bus} (hb : b.Orderly) (h : Host)

theorem makeAll_append (rs rs' : List NodeCall) (b : Bus) :
    makeAll h (rs ++ rs') b = makeAll h rs' (makeAll h rs b) := List.foldl_append

include hb

theorem called_makeAll (rs : List NodeCall) : b.Called (makeAll h rs b) := by
  induction rs generalizing b with
  | nil => exact .refl b
  | cons r rs ih =>
      have hr := called_make hb h r
      exact hr.trans (ih (hr.orderly hb))

/-- **A loop that makes calls** makes all of them, if what it looks up is not changed by calls. -/
theorem foldl_eq_makeAll {ι : Type} {f : Bus → ι → Bus} (asks : ι → List NodeCall) (xs : List ι)
    (hf : ∀ x c, b.Called c → f c x = makeAll h (asks x) c) :
    xs.foldl f b = makeAll h (xs.flatMap asks) b := by
  induction xs generalizing b with
  | nil => rfl
  | cons x xs ih =>
      have hx := called_makeAll hb h (asks x)
      calc
        (x :: xs).foldl f b = xs.foldl f (makeAll h (asks x) b) := by
          rw [List.foldl_cons, hf x b (.refl b)]
        _ = makeAll h (xs.flatMap asks) (makeAll h (asks x) b) :=
          ih (hx.orderly hb) fun y c hc => hf y c (hx.trans hc)
        _ = makeAll h ((x :: xs).flatMap asks) b := by
          rw [List.flatMap_cons, makeAll_append]

end All

end NodeCall

namespace Makes

variable {h : Host} {b c d : Bus} {rs rs' : List NodeCall}

theorem trans (hrs : Makes h b rs c) (hrs' : Makes h c rs' d) : Makes h b (rs ++ rs') d := by
  induction hrs with
  | done b => exact hrs'
  | call hr _ ih => exact .call hr (ih hrs')
  | silent hb _ ih => exact .silent hb (ih hrs')

/-- Calls with nothing in between, as long as the addresses in them are right; they may be read off
any bus that has the same. -/
theorem of_makeAll (hb : b.Orderly) (haddress : ∀ n t, b.addressText n t = c.addressText n t)
    (hrs : ∀ r ∈ rs, r.IsAddressed c) : Makes h b rs (NodeCall.makeAll h rs b) := by
  induction rs generalizing b with
  | nil => exact .done b
  | cons r rs ih =>
      have hr := NodeCall.called_make hb h r
      refine .call ?_ (ih (hr.orderly hb) (fun n t => ?_) fun s hs => ?_)
      · rw [NodeCall.IsAddressed, haddress]
        exact hrs r List.mem_cons_self
      · rw [hr.addressText, haddress]
      · exact hrs s (List.mem_cons_of_mem r hs)

/-- **No answer stops the calls**: all those to recorders are written down, in order, and nothing
else is. -/
theorem trace (hrs : Makes h b rs c) (hb : b.Orderly) :
    ∃ entries, c.desk.trace = b.desk.trace ++ entries ∧ NodeCall.Recorded b rs entries := by
  unfold NodeCall.Recorded
  induction hrs with
  | done b => exact ⟨[], (List.append_nil _).symm, .nil⟩
  | silent hsilent _ ih =>
      obtain ⟨entries, htrace, hnotes⟩ := ih (hsilent.orderly hb)
      rw [hsilent.desk] at htrace
      simp only [hsilent.label?] at hnotes
      exact ⟨entries, htrace, hnotes⟩
  | @call b c r rs hr _ ih =>
      obtain ⟨entries, htrace, hnotes⟩ := ih ((NodeCall.called_make hb h r).orderly hb)
      simp only [NodeCall.label?_make hb h r] at hnotes
      cases hl : b.label? r.transport with
      | none =>
          rw [NodeCall.trace_make_of_none h r hl] at htrace
          refine ⟨entries, htrace, ?_⟩
          rwa [List.filter_cons_of_neg (by simp [hl])]
      | some label =>
          obtain ⟨e, he, hstep⟩ := NodeCall.trace_make hb h r hr hl
          rw [hstep, List.append_assoc] at htrace
          refine ⟨e :: entries, htrace, ?_⟩
          rw [List.filter_cons_of_pos (by simp [hl])]
          exact .cons ⟨label, hl, he⟩ hnotes

end Makes

/-- Lists with different tags have nothing in common. -/
theorem nodup_flatMap_of_tag {ι α κ : Type} {f : ι → List α} (key : ι → κ) (tag : α → κ)
    {xs : List ι} (hkeys : (xs.map key).Nodup) (hf : ∀ x ∈ xs, (f x).Nodup)
    (htag : ∀ x ∈ xs, ∀ a ∈ f x, tag a = key x) : (xs.flatMap f).Nodup := by
  refine List.nodup_flatMap.2 ⟨hf, ?_⟩
  refine (List.pairwise_map.1 hkeys).imp_of_mem fun {x y} hx hy hne a hax hay => ?_
  exact hne ((htag x hx a hax).symm.trans (htag y hy a hay))

namespace Bus

/-! ## What is asked for a node -/

/-- **What is asked of a transport** for a node at its address there: something for each of the
names, and one thing for what the node manages. -/
def asks (b : Bus) (ask : TransportId → NodeId → String → String → NodeCall)
    (mark : ObjectId → Option ObjectId) (n : NodeId) (names : List String)
    (managing : Option ObjectId) (t : TransportId) : List NodeCall :=
  names.map (ask t n (b.addressText n t)) ++
    (managing.map fun o => .manage t n (b.addressText n t) (mark o)).toList

theorem asks_congr {b b' : Bus} (h : ∀ n t, b'.addressText n t = b.addressText n t) :
    b'.asks = b.asks := by
  funext ask mark n names managing t
  rw [asks, asks, h]

theorem Called.asks {b b' : Bus} (h : b.Called b') : b'.asks = b.asks := asks_congr h.addressText

theorem mem_asks {b : Bus} {ask : TransportId → NodeId → String → String → NodeCall}
    {mark : ObjectId → Option ObjectId} {n : NodeId} {names : List String}
    {managing : Option ObjectId} {t : TransportId} {r : NodeCall} :
    r ∈ b.asks ask mark n names managing t ↔
      (∃ k ∈ names, r = ask t n (b.addressText n t) k) ∨
        ∃ o, managing = some o ∧ r = .manage t n (b.addressText n t) (mark o) := by
  simp only [asks, List.mem_append, List.mem_map, Option.mem_toList, Option.map_eq_some_iff,
    eq_comm (b := r)]

section Asks

variable {ask : TransportId → NodeId → String → String → NodeCall} (hask : ask = .drop ∨ ask = .add)
  {mark : ObjectId → Option ObjectId} {n : NodeId} {names : List String}
  {managing : Option ObjectId} {t : TransportId}

include hask

/-- Every call is about the node, at its address on the transport. -/
theorem isAddressed_of_mem_asks {b : Bus} {r : NodeCall}
    (hr : r ∈ b.asks ask mark n names managing t) :
    r.transport = t ∧ r.node = n ∧ r.IsAddressed b := by
  rcases mem_asks.1 hr with ⟨k, -, rfl⟩ | ⟨o, -, rfl⟩
  · rcases hask with rfl | rfl <;> simp [NodeCall.transport, NodeCall.node]
  · simp [NodeCall.transport, NodeCall.node]

theorem nodup_asks {b : Bus} (hnames : names.Nodup) :
    (b.asks ask mark n names managing t).Nodup := by
  refine List.nodup_append.2 ⟨hnames.map fun k k' hk => ?_, ?_, ?_⟩
  · rcases hask with rfl | rfl <;> cases hk <;> rfl
  · cases managing <;> simp
  · intro r hr r' hr' heq
    obtain ⟨k, -, rfl⟩ := List.mem_map.1 hr
    obtain ⟨o, -, rfl⟩ := Option.map_eq_some_iff.1 (Option.mem_toList.1 hr')
    rcases hask with rfl | rfl <;> cases heq

/-- Different transports get different calls. -/
theorem nodup_asksAll {b : Bus} (hnames : names.Nodup) {ts : List TransportId} (hts : ts.Nodup) :
    (ts.flatMap (b.asks ask mark n names managing)).Nodup :=
  nodup_flatMap_of_tag id NodeCall.transport (by rwa [List.map_id])
    (fun _ _ => nodup_asks hask hnames) fun _ _ _ hr => (isAddressed_of_mem_asks hask hr).1

end Asks

/-! ## The loops make calls -/

section Loops

open NodeCall (makeAll)

variable {b : Bus} (hb : b.Orderly) (h : Host)

omit hb in
theorem leave_eq (n : NodeId) (names : List String) (managing : Option ObjectId)
    (t : TransportId) : b.leave h n names managing.isSome t =
      makeAll h (b.asks .drop (fun _ => none) n names managing t) b := by
  have hnames : makeAll h (names.map (.drop t n (b.addressText n t))) b =
      names.foldl (fun c k => c.dropAt h t (b.addressText n t) k) b := List.foldl_map
  rw [asks, NodeCall.makeAll_append, hnames, leave]
  cases managing <;> rfl

include hb

/-- Names are looked up at every step, but calls do not change them. -/
theorem foldl_names_eq {f : Bus → InterfaceId → Bus} (ask : String → NodeCall)
    (hf : ∀ i c, b.Called c → f c i = (ask (b.nameOf i)).make h c) (is : List InterfaceId) :
    is.foldl f b = makeAll h ((is.map b.nameOf).map ask) b := by
  rw [NodeCall.foldl_eq_makeAll hb h (fun i => [ask (b.nameOf i)]) is hf, List.map_map,
    List.map_eq_flatMap]
  rfl

theorem withdrawOn_eq (m : Relocation) (t : TransportId) : b.withdrawOn h m t =
    makeAll h
      (b.asks .drop (fun _ => none) m.node (m.interfaces.map b.nameOf) m.managing t) b := by
  have hnames := foldl_names_eq hb h
    (f := fun c i => c.dropAt h t (b.addressText m.node t) (c.nameOf i))
    (.drop t m.node (b.addressText m.node t)) (fun i c hc => by rw [hc.nameOf]; rfl) m.interfaces
  simp only [withdrawOn, hnames]
  rw [asks, NodeCall.makeAll_append]
  cases m.managing <;> rfl

theorem restoreOn_eq (m : Relocation) (t : TransportId) : b.restoreOn h m t =
    makeAll h (b.asks .add some m.node (m.interfaces.map b.nameOf) m.managing t) b := by
  have hnames := foldl_names_eq hb h
    (f := fun c i => (c.callAdd h t m.node (c.nameOf i)).2)
    (.add t m.node (b.addressText m.node t)) (fun i c hc => by rw [hc.nameOf]; rfl) m.interfaces
  simp only [restoreOn, hnames]
  rw [asks, NodeCall.makeAll_append]
  cases m.managing <;> rfl

end Loops

/-- What is asked for a moved node on all its transports, with the addresses of a bus that may be a
later one. -/
def Relocation.asks (b b' : Bus) (ask : TransportId → NodeId → String → String → NodeCall)
    (mark : ObjectId → Option ObjectId) (m : Relocation) : List NodeCall :=
  m.servers.flatMap (b'.asks ask mark m.node (m.interfaces.map b.nameOf) m.managing)

section Relocations

open NodeCall (makeAll)

variable {b : Bus} (hb : b.Orderly) (h : Host)

include hb

/-- A step that makes the calls for one relocation on one transport makes them for all relocations
on all their transports. -/
theorem foldl_relocations_eq {ask : TransportId → NodeId → String → String → NodeCall}
    {mark : ObjectId → Option ObjectId} {f : Relocation → TransportId → Bus → Bus}
    (hf : ∀ m t c, c.Orderly → f m t c =
      makeAll h (c.asks ask mark m.node (m.interfaces.map c.nameOf) m.managing t) c)
    (ms : List Relocation) :
    ms.foldl (fun b m => m.servers.foldl (fun b t => f m t b) b) b =
      makeAll h (ms.flatMap (Relocation.asks b b ask mark)) b := by
  refine NodeCall.foldl_eq_makeAll hb h _ ms fun m c hc => ?_
  refine NodeCall.foldl_eq_makeAll (hc.orderly hb) h _ m.servers fun t d hd => ?_
  have hnames : d.nameOf = b.nameOf := funext (hc.trans hd).nameOf
  rw [hf m t d (hd.orderly (hc.orderly hb)), (hc.trans hd).asks, hnames]

theorem withdrawAll_eq (ms : List Relocation) : ms.foldl (fun b m => b.withdraw h m) b =
    makeAll h (ms.flatMap (Relocation.asks b b .drop fun _ => none)) b :=
  foldl_relocations_eq hb h (fun m t _ hc => withdrawOn_eq hc h m t) ms

theorem restoreAll_eq (ms : List Relocation) : ms.foldl (fun b m => b.restore h m) b =
    makeAll h (ms.flatMap (Relocation.asks b b .add some)) b :=
  foldl_relocations_eq hb h (fun m t _ hc => restoreOn_eq hc h m t) ms

theorem leaveAll_eq (n : NodeId) (names : List String) (managing : Option ObjectId)
    (ts : List TransportId) : ts.foldl (fun b t => b.leave h n names managing.isSome t) b =
      makeAll h (ts.flatMap (b.asks .drop (fun _ => none) n names managing)) b :=
  NodeCall.foldl_eq_makeAll hb h _ ts fun t c hc => by
    rw [leave_eq, hc.asks]

end Relocations

/-! ## What each node is asked for -/

/-- **A node has a name on a transport**: the transport is live and the node is bound to it, and the
name leads to a live value. -/
def Carries (b : Bus) (d : NodeId) (t : TransportId) (k : String) : Prop :=
  ∃ y i, b.node? d = some y ∧ t ∈ b.transportsOf y ∧ Entries.get? k y.interfaces = some i ∧
    b.isLiveInterface i = true

/-- **A node manages an object on a transport**: the transport is live and the node is bound to it.
-/
def Refers (b : Bus) (d : NodeId) (t : TransportId) (o : ObjectId) : Prop :=
  ∃ y, b.node? d = some y ∧ t ∈ b.transportsOf y ∧ y.managing = some o

instance (b : Bus) (d : NodeId) (t : TransportId) (k : String) : Decidable (b.Carries d t k) :=
  decidable_of_iff ((b.node? d).any (fun y => (b.transportsOf y).contains t &&
      (Entries.get? k y.interfaces).any b.isLiveInterface) = true) <| by
    simp [Carries, Option.any_eq_true]

instance (b : Bus) (d : NodeId) (t : TransportId) (o : ObjectId) : Decidable (b.Refers d t o) :=
  decidable_of_iff ((b.node? d).any (fun y => (b.transportsOf y).contains t &&
      decide (y.managing = some o)) = true) <| by
    simp [Refers, Option.any_eq_true]

/-- **What is asked for a node** that moves: something for each of its live names on each of its
live transports, and one thing on each of them if it manages something. The addresses are those of
another bus. -/
def Asked (b b' : Bus) (ask : TransportId → NodeId → String → String → NodeCall)
    (mark : ObjectId → Option ObjectId) (d : NodeId) (r : NodeCall) : Prop :=
  (∃ t k, b.Carries d t k ∧ r = ask t d (b'.addressText d t) k) ∨
    ∃ t o, b.Refers d t o ∧ r = .manage t d (b'.addressText d t) (mark o)

theorem mem_asks_relocation {b b' : Bus} (hb : b.Sound)
    {ask : TransportId → NodeId → String → String → NodeCall} {mark : ObjectId → Option ObjectId}
    {m : Relocation} (hm : m.Mirrors b) {r : NodeCall} :
    r ∈ m.asks b b' ask mark ↔ b.Asked b' ask mark m.node r := by
  obtain ⟨y, hy, hservers, hinterfaces, hmanaging⟩ := hm
  have hname : ∀ k, k ∈ (b.instancesOf y).map b.nameOf ↔
      ∃ i, Entries.get? k y.interfaces = some i ∧ b.isLiveInterface i = true := fun k => by
    rw [List.mem_map, name_instancesOf_iff hb hy]
  simp only [Relocation.asks, List.mem_flatMap, mem_asks, hservers, hinterfaces, hmanaging, hname,
    Asked, Carries, Refers, hy, Option.some.injEq]
  constructor
  · rintro ⟨t, ht, ⟨k, ⟨i, hk, hi⟩, rfl⟩ | ⟨o, ho, rfl⟩⟩
    · exact Or.inl ⟨t, k, ⟨y, i, rfl, ht, hk, hi⟩, rfl⟩
    · exact Or.inr ⟨t, o, ⟨y, rfl, ht, ho⟩, rfl⟩
  · rintro (⟨t, k, ⟨_, i, rfl, ht, hk, hi⟩, rfl⟩ | ⟨t, o, ⟨_, rfl, ht, ho⟩, rfl⟩)
    · exact ⟨t, ht, Or.inl ⟨k, ⟨i, hk, hi⟩, rfl⟩⟩
    · exact ⟨t, ht, Or.inr ⟨o, ho, rfl⟩⟩

/-- The names of the live values of a node are different. -/
theorem nodup_names {b : Bus} (hb : b.Sound) {n : NodeId} {x : Node} (hn : b.node? n = some x) :
    ((b.instancesOf x).map b.nameOf).Nodup := by
  have hentry : ∀ e ∈ x.interfaces, b.isLiveInterface e.2 = true → b.nameOf e.2 = e.1 := by
    intro e he hlive
    obtain ⟨v, hv, -⟩ := exists_of_isLiveInterface hlive
    rw [nameOf_eq hv]
    exact (hb.entry hn (Entries.get?_of_mem (hb.table hn) he) hv).1
  refine List.Nodup.sublist ?_ (hb.table hn).nodup
  unfold instancesOf Entries.values Entries.keys
  generalize x.interfaces = es at hentry
  induction es with
  | nil => exact List.Sublist.refl _
  | cons e es ih =>
      have hrest := ih fun e' he' => hentry e' (List.mem_cons_of_mem e he')
      rw [List.map_cons, List.map_cons]
      by_cases hlive : b.isLiveInterface e.2 = true
      · rw [List.filter_cons_of_pos hlive, List.map_cons, hentry e List.mem_cons_self hlive]
        exact hrest.cons_cons e.1
      · rw [List.filter_cons_of_neg hlive]
        exact hrest.cons e.1

end Bus

namespace Bus

/-! ## In between -/

theorem silent_unheld {b : Bus} (n : NodeId) : b.Silent (b.unheld n) :=
  ⟨rfl, rfl, fun hb => hb.adjustNode n _⟩

theorem silent_disowned (is : List InterfaceId) (b : Bus) : b.Silent (b.disowned is) := by
  refine ⟨transports_foldl_setOwner is b, ?_, orderly_foldl_setOwner is⟩
  unfold disowned
  induction is generalizing b with
  | nil => rfl
  | cons i is ih => exact ih (b.setOwner i none)

theorem silent_uprooted {b : Bus} (hf : b.forest.WellFormed) (n : NodeId) (x : Node) :
    b.Silent (b.uprooted n x) :=
  ⟨rfl, rfl, fun hb => hb.uprooted hf n x⟩

theorem addressText_congr {b b' : Bus} {m : NodeId} {t : TransportId}
    (hpath : b'.forest.path m = b.forest.path m) (htransports : b'.transports = b.transports) :
    b'.addressText m t = b.addressText m t := by
  rw [addressText, addressText, hpath, rootOf, rootOf, transport?, transport?, htransports]

theorem relocation_asks_congr {b b' c c' : Bus} (hname : ∀ i, c.nameOf i = b.nameOf i)
    (haddress : ∀ n t, c'.addressText n t = b'.addressText n t) :
    Relocation.asks c c' = Relocation.asks b b' := by
  have hnames : c.nameOf = b.nameOf := funext hname
  funext ask mark m
  rw [Relocation.asks, Relocation.asks, asks_congr haddress, hnames]

/-! ## The way of a destroyed node -/

/-- What is asked for a destroyed node itself: every name that it has is dropped, also those that
lead nowhere, and what it manages is cleared. -/
def farewells (b : Bus) (n : NodeId) (x : Node) : List NodeCall :=
  (b.transportsOf x).flatMap
    (b.asks .drop (fun _ => none) n (Entries.keys x.interfaces) x.managing)

/-- What is asked for the nodes that a destroyed node moves, in the order in which they are moved,
with the addresses of a bus that may be a later one. -/
def asksMoving (b b' : Bus) (n : NodeId) (x : Node)
    (ask : TransportId → NodeId → String → String → NodeCall)
    (mark : ObjectId → Option ObjectId) : List NodeCall :=
  ((b.unheld n).moving n { x with handles := x.handles - 1 }).flatMap
    (Relocation.asks b b' ask mark)

theorem isAddressed_farewells {b : Bus} {n : NodeId} {x : Node} {r : NodeCall}
    (hr : r ∈ b.farewells n x) : r.IsAddressed b := by
  obtain ⟨t, -, hr⟩ := List.mem_flatMap.1 hr
  exact (isAddressed_of_mem_asks (Or.inl rfl) hr).2.2

theorem isAddressed_asksMoving {b b' : Bus} {n : NodeId} {x : Node}
    {ask : TransportId → NodeId → String → String → NodeCall} (hask : ask = .drop ∨ ask = .add)
    {mark : ObjectId → Option ObjectId} {r : NodeCall} (hr : r ∈ b.asksMoving b' n x ask mark) :
    r.IsAddressed b' := by
  obtain ⟨m, -, hr⟩ := List.mem_flatMap.1 hr
  obtain ⟨t, -, hr⟩ := List.mem_flatMap.1 hr
  exact (isAddressed_of_mem_asks hask hr).2.2

section Way

variable {b : Bus} (hb : b.Sound) (h : Host) {n : NodeId} {x : Node} (hn : b.node? n = some x)

include hb

/-- **Leaving**: the node itself and then those that it moves, at the addresses before. -/
theorem makes_away : Makes h b (b.farewells n x ++ b.asksMoving b n x .drop fun _ => none)
    (b.away h n x) := by
  have hb₀ := (hb.unheld n).orderly
  have haddress₀ : ∀ m t, (b.unheld n).addressText m t = b.addressText m t := fun m t =>
    addressText_congr
      (Forest.path_adjust b.forest n (shrinks_handles b fun c => c - 1).place m) rfl
  -- the node itself leaves
  have hleave := leaveAll_eq hb₀ h n (Entries.keys x.interfaces) x.managing (b.transportsOf x)
  rw [asks_congr haddress₀] at hleave
  have hleft := NodeCall.called_makeAll hb₀ h (b.farewells n x)
  have hown : Makes h (b.unheld n) (b.farewells n x)
      (NodeCall.makeAll h (b.farewells n x) (b.unheld n)) :=
    .of_makeAll hb₀ haddress₀ fun _ => isAddressed_farewells
  unfold away
  rw [hleave]
  change Makes h b _ (List.foldl _ ((NodeCall.makeAll h (b.farewells n x) _).disowned _) _)
  generalize NodeCall.makeAll h (b.farewells n x) (b.unheld n) = left at hleft hown
  -- its values are on their own, which changes no name and no address
  have hsilent := silent_disowned (b.instancesOf x) left
  have horderly := hsilent.orderly (hleft.orderly hb₀)
  have haddress : ∀ m t, (left.disowned (b.instancesOf x)).addressText m t = b.addressText m t := by
    intro m t
    refine (addressText_congr (b := left) ?_ hsilent.transports).trans ?_
    · rw [disowned, forest_foldl_setOwner]
    · rw [hleft.addressText, haddress₀]
  have hname : ∀ i, (left.disowned (b.instancesOf x)).nameOf i = b.nameOf i := fun i =>
    (nameOf_foldl_setOwner (b.instancesOf x) left i).trans (hleft.nameOf i)
  -- and then the moved nodes leave
  rw [withdrawAll_eq horderly, relocation_asks_congr hname haddress]
  have hmoved : Makes h (left.disowned (b.instancesOf x)) (b.asksMoving b n x .drop fun _ => none)
      (NodeCall.makeAll h (b.asksMoving b n x .drop fun _ => none)
        (left.disowned (b.instancesOf x))) :=
    .of_makeAll horderly haddress fun _ => isAddressed_asksMoving (Or.inl rfl)
  exact .silent (silent_unheld n) (hown.trans (.silent hsilent hmoved))

include hn

/-- **The way of a destroyed node**: it leaves, those that it moves leave, and when the tree is
rewritten they come to their new addresses. -/
theorem makes_destroyed (hlast : x.handles = 1) :
    Makes h b (b.farewells n x ++ (b.asksMoving b n x .drop fun _ => none) ++
        b.asksMoving ((b.unheld n).destroyNode h n) n x .add some)
      ((b.unheld n).destroyNode h n) := by
  have hforest : (b.away h n x).forest.WellFormed := by
    have hcalled := (away_spec hb h hn (by omega)).1
    rw [hcalled.forest, disowned, forest_foldl_setOwner]
    exact (hb.unheld n).forest
  have hsilent := silent_uprooted hforest n x
  have hup := called_uprooted_away hb h hn hlast
  have horderly := hup.orderly (hb.without hn).orderly
  have hname : ∀ i, ((b.away h n x).uprooted n x).nameOf i = b.nameOf i := fun i =>
    (hup.nameOf i).trans (nameOf_foldl_setOwner (b.instancesOf x) (b.uprooted n x) i)
  have hback := restoreAll_eq horderly h
    ((b.unheld n).moving n { x with handles := x.handles - 1 })
  rw [← destroyNode_unheld hb h hn hlast] at hback
  have hcalled := NodeCall.called_makeAll horderly h
    (((b.unheld n).moving n { x with handles := x.handles - 1 }).flatMap
      (Relocation.asks ((b.away h n x).uprooted n x) ((b.away h n x).uprooted n x) .add some))
  rw [← hback] at hcalled
  -- coming back changes no address
  generalize (b.unheld n).destroyNode h n = b' at hback hcalled ⊢
  rw [relocation_asks_congr hname fun m t => (hcalled.addressText m t).symm] at hback
  have hcome : Makes h ((b.away h n x).uprooted n x) (b.asksMoving b' n x .add some)
      (NodeCall.makeAll h (b.asksMoving b' n x .add some) ((b.away h n x).uprooted n x)) :=
    .of_makeAll horderly (fun m t => (hcalled.addressText m t).symm)
      fun _ => isAddressed_asksMoving (Or.inr rfl)
  rw [asksMoving, ← hback] at hcome
  exact (makes_away hb h).trans (.silent hsilent hcome)

end Way

/-! ## What is in the lists -/

section Lists

variable {b : Bus} {n : NodeId} {x : Node}

theorem mem_farewells {r : NodeCall} : r ∈ b.farewells n x ↔
    ∃ t ∈ b.transportsOf x,
      (∃ k ∈ Entries.keys x.interfaces, r = .drop t n (b.addressText n t) k) ∨
        ∃ o, x.managing = some o ∧ r = .manage t n (b.addressText n t) none := by
  simp only [farewells, List.mem_flatMap, mem_asks]

theorem nodup_farewells (hb : b.Sound) (hbound : b.forest.BoundOnce) (hn : b.node? n = some x) :
    (b.farewells n x).Nodup :=
  nodup_asksAll (Or.inl rfl) (hb.table hn).nodup ((hbound hn).filter _)

variable {ask : TransportId → NodeId → String → String → NodeCall} (hask : ask = .drop ∨ ask = .add)
  {mark : ObjectId → Option ObjectId}

include hask in
theorem nodup_asks_relocation (hb : b.Sound) (hbound : b.forest.BoundOnce) {m : Relocation}
    (hm : m.Mirrors b) (b' : Bus) : (m.asks b b' ask mark).Nodup := by
  obtain ⟨y, hy, hservers, hinterfaces, -⟩ := hm
  rw [Relocation.asks, hservers, hinterfaces]
  exact nodup_asksAll hask (nodup_names hb hy) ((hbound hy).filter _)

variable (hb : b.Sound) (hn : b.node? n = some x) (hpos : 0 < x.handles) (b' : Bus)

include hb hn hpos

theorem mem_asksMoving {r : NodeCall} : r ∈ b.asksMoving b' n x ask mark ↔
    ∃ d, b.Moves n d ∧ b.Asked b' ask mark d r := by
  rw [asksMoving, List.mem_flatMap]
  constructor
  · rintro ⟨m, hm, hr⟩
    exact ⟨m.node, ((mem_moving_unheld hb hn hpos).1 hm).1,
      (mem_asks_relocation hb (mirrors_of_mem_moving hb hn hpos hm)).1 hr⟩
  · rintro ⟨d, hd, hr⟩
    obtain ⟨m, hm, rfl⟩ := exists_mem_moving hb hn hpos hd
    exact ⟨m, hm, (mem_asks_relocation hb (mirrors_of_mem_moving hb hn hpos hm)).2 hr⟩

include hask in
theorem nodup_asksMoving (hbound : b.forest.BoundOnce) :
    (b.asksMoving b' n x ask mark).Nodup := by
  refine nodup_flatMap_of_tag (·.node) NodeCall.node ?_ (fun m hm => ?_) ?_
  · rw [map_node_moving hb hn hpos, movers, hn]
    simp only
    split
    · exact Forest.nodup_descendants hb.forest n
    · exact List.nodup_nil
  · exact nodup_asks_relocation hask hb hbound (mirrors_of_mem_moving hb hn hpos hm) b'
  · intro m _ r hr
    obtain ⟨t, -, hr⟩ := List.mem_flatMap.1 hr
    exact (isAddressed_of_mem_asks hask hr).2.1

end Lists

end Bus

open Bus in
/-- **Destroying a node**, after every run and with transports that hold anything and refuse
anything: its last handle goes, and what it asks of transports are three lists of calls one after
the other, each call made once. First every name of the node itself is dropped. Then, for every node
below it, each live name is dropped on each live transport at the address before, and what the node
manages is cleared; and when the tree is rewritten the same names are registered, and the same
objects set, at the address after. All calls are made whatever is answered, and recorders write all
of them down and nothing else. Below a root nobody is moved, and nothing is asked for any other
node. -/
theorem destruction_calls {levels : Nat} {b c : Bus} (hb : b.Reachable levels) (hc : b.Called c)
    {n : NodeId} {x : Node} (hn : c.node? n = some x) (hlast : x.handles = 1) :
    let c' := (Operation.dropNode n).apply levels c
    ∃ own away back : List NodeCall, Makes (.ofLevels levels) c (own ++ away ++ back) c' ∧
      own.Nodup ∧ away.Nodup ∧ back.Nodup ∧
      (∀ r, r ∈ own ↔ ∃ t ∈ c.transportsOf x,
        (∃ k ∈ Entries.keys x.interfaces, r = .drop t n (c.addressText n t) k) ∨
          ∃ o, x.managing = some o ∧ r = .manage t n (c.addressText n t) none) ∧
      (∀ r, r ∈ away ↔ ∃ d, c.Moves n d ∧ c.Asked c .drop (fun _ => none) d r) ∧
      (∀ r, r ∈ back ↔ ∃ d, c.Moves n d ∧ c.Asked c' .add some d r) ∧
      (x.parent = none → away = [] ∧ back = []) ∧
      ∃ entries, c'.desk.trace = c.desk.trace ++ entries ∧
        NodeCall.Recorded c (own ++ away ++ back) entries := by
  intro c'
  obtain ⟨hsound, hheld⟩ := Reachable.sound_held hb
  have hsound := hsound.called hc
  have hbound : c.forest.BoundOnce := hc.forest ▸ Reachable.boundOnce hb
  have hpos : 0 < x.handles := by omega
  have hc' : c' = (c.unheld n).destroyNode (.ofLevels levels) n :=
    calc c' = c.releaseNode (.ofLevels (levels + 1)) n := if_pos ((hheld.called hc).isLiveNode hn)
      _ = (c.unheld n).destroyNode (.ofLevels levels) n := releaseNode_of_last levels hn hlast
  have hmakes := makes_destroyed hsound (.ofLevels levels) hn hlast
  rw [← hc'] at hmakes
  have haway : ∀ r, r ∈ c.asksMoving c n x .drop (fun _ => none) ↔
      ∃ d, c.Moves n d ∧ c.Asked c .drop (fun _ => none) d r := fun r =>
    mem_asksMoving hsound hn hpos c
  have hback : ∀ r, r ∈ c.asksMoving c' n x .add some ↔
      ∃ d, c.Moves n d ∧ c.Asked c' .add some d r := fun r => mem_asksMoving hsound hn hpos c'
  refine ⟨_, _, _, hmakes, nodup_farewells hsound hbound hn,
    nodup_asksMoving (Or.inl rfl) hsound hn hpos c hbound,
    nodup_asksMoving (Or.inr rfl) hsound hn hpos c' hbound, fun r => mem_farewells, haway, hback,
    fun hroot => ?_, hmakes.trace hsound.orderly⟩
  have hnone : ∀ d, ¬c.Moves n d := by
    rintro d ⟨-, y, hy, hparent⟩
    obtain rfl := Option.some.inj (hn.symm.trans hy)
    rw [hroot] at hparent
    cases hparent
  refine ⟨List.eq_nil_iff_forall_not_mem.2 fun r hr => ?_,
    List.eq_nil_iff_forall_not_mem.2 fun r hr => ?_⟩
  · obtain ⟨d, hd, -⟩ := (haway r).1 hr
    exact hnone d hd
  · obtain ⟨d, hd, -⟩ := (hback r).1 hr
    exact hnone d hd

section Example

/-- A tree of five: a root `r`, below it `x`, and below that `d` and another `x` with a `d` of its
own. Both of these carry a lamp, and the lower one manages an object. -/
def twins : Bus :=
  Bus.after 0 [.openRecorder "a" "/", .makeRoot "r", .bind 0 0, .makeChild 0 "x", .makeChild 1 "d",
    .makeChild 1 "x", .makeChild 3 "d", .build { name := "lamp" }, .makeInterface 1 2,
    .build { name := "lamp" }, .makeInterface 2 4, .manage 4 (some 7)]

/-- The same when the transport has come to refuse all registrations. -/
def refusing : Bus :=
  match twins.recorder? 0 with
  | none => twins
  | some r => twins.setRecorder 0 { r with refusals := ["*"] }

theorem called_refusing : twins.Called refusing := by
  unfold refusing
  split
  · exact .refl twins
  · next r hr =>
      exact Bus.called_adjustServer (Bus.transport?_of_recorder? hr) ⟨rfl, rfl⟩
        fun _ _ h => by cases h

/-- The upper `x` is destroyed: one `d` comes to the address that the other one has left, and though
all registrations are refused, everything is written down. -/
theorem destruction_calls_of_refusing :
    let b' := (Operation.dropNode 1).apply 0 refusing
    ∃ away back : List NodeCall, Makes (.ofLevels 0) refusing (away ++ back) b' ∧
      .drop 0 2 "/r/x/d" "lamp" ∈ away ∧ .manage 0 4 "/r/x/x/d" none ∈ away ∧
      .add 0 4 "/r/x/d" "lamp" ∈ back ∧ .manage 0 4 "/r/x/d" (some 7) ∈ back ∧
      b'.desk.trace.length = refusing.desk.trace.length + 6 := by
  intro b'
  have hb : twins.Reachable 0 := Bus.reaches_after fun _ _ _ => trivial
  have hsound := (Bus.Reachable.sound_held hb).1.called called_refusing
  obtain ⟨x, hx, hview⟩ : ∃ x, refusing.node? 1 = some x ∧
      (x.handles, Entries.keys x.interfaces, x.managing) = (1, [], none) := by
    have hview : (refusing.node? 1).map
        (fun x => (x.handles, Entries.keys x.interfaces, x.managing)) = some (1, [], none) := by
      decide +kernel
    exact Option.map_eq_some_iff.1 hview
  simp only [Prod.mk.injEq] at hview
  obtain ⟨hlast, hnames, hmanaging⟩ := hview
  have hmoves : ∀ d, d = 2 ∨ d = 4 → refusing.Moves 1 d := by
    intro d hd
    refine (Bus.mem_movers_iff hsound).1 ?_
    rcases hd with rfl | rfl <;> decide +kernel
  obtain ⟨own, away, back, hmakes, -, -, -, hown, haway, hback, -⟩ :=
    destruction_calls hb called_refusing hx hlast
  have hnone : own = [] := List.eq_nil_iff_forall_not_mem.2 fun r hr => by
    obtain ⟨t, -, ⟨k, hk, -⟩ | ⟨o, ho, -⟩⟩ := (hown r).1 hr
    · rw [hnames] at hk
      cases hk
    · rw [hmanaging] at ho
      cases ho
  rw [hnone] at hmakes
  refine ⟨away, back, hmakes, (haway _).2 ⟨2, hmoves 2 (Or.inl rfl), Or.inl ⟨0, "lamp", ?_⟩⟩,
    (haway _).2 ⟨4, hmoves 4 (Or.inr rfl), Or.inr ⟨0, 7, ?_⟩⟩,
    (hback _).2 ⟨4, hmoves 4 (Or.inr rfl), Or.inl ⟨0, "lamp", ?_⟩⟩,
    (hback _).2 ⟨4, hmoves 4 (Or.inr rfl), Or.inr ⟨0, 7, ?_⟩⟩, by decide +kernel⟩
  all_goals decide +kernel

end Example

end ObjectBus
