import ObjectBus.Bus.Emit
import ObjectBus.Proofs.Arena
import ObjectBus.Proofs.Shape.Parts

/-!
# Signals go out

An emission is a list of calls (`SignalCall`), made one after the other whatever is answered: one for
every live transport that the node of the value is bound to, in binding order, each with the address
of the node there. `Bus.send_registered` says that this is all an emission does, and the frame lemmas
that such calls leave the tree, the values and all registrations as they are.

A value need not be in a position to emit. `Bus.Sent` has one case for each way in which it can stand to
its node, in whatever state the bus is: in the midst of a callback as well as between two operations.

After every run each transport is called exactly once, because no node is bound to a transport twice
(`signal_fan_out`). In a run one operation is over before the next begins. A transport that is told, in
the middle of being bound, what the node manages, and binds the node itself, is bound twice when it
returns; it is then called twice for every signal. Such callbacks are no operations of a run.
-/

set_option autoImplicit false

namespace ObjectBus

/-- **One call that sends a signal** to a transport. -/
structure SignalCall where
  transport : TransportId
  address : String
  interface : String
  signal : String
  args : List Value
  argsType : Shape

/-- A transport after a call that sends a signal: a loopback transport hands the signal on, unless it
fails, and a recorder only writes the call down. -/
def Transport.announced (c : SignalCall) : Transport → Transport
  | .recorder r => .recorder r
  | .loopback l =>
      .loopback ((l.emit c.address c.interface c.signal c.args c.argsType).toOption.getD l)

/-- **What may be emitted**: encoded values, or a native pack. -/
inductive Emission where
  | values (signal : String) (args : List Value)
  | pack (signal : String) (types : List Native) (args : Native.Pack types)

namespace Emission

/-- The name of the signal. -/
def signal : Emission → String
  | values signal _ => signal
  | pack signal _ _ => signal

/-- The arguments as transports get them. -/
def args : Emission → List Value
  | values _ args => args
  | pack _ types args => Native.encodePack types args

/-- **The arguments match the declaration**: encoded values one by one, a pack by its types. -/
def Matches (s : Signal) : Emission → Prop
  | values _ args => List.Forall₂ (fun v t => v.matches? t = true) args s.types
  | pack _ types _ => Native.shapes types = s.types

/-- **Emits from an interface value.** -/
def run (h : Host) (i : InterfaceId) (b : Bus) : Emission → Except EmitError Unit × Bus
  | values signal args => b.emitValues h i signal args
  | pack signal types args => b.emitPack h i signal types args

end Emission

namespace Signal

theorem mismatch?_eq_none {args : List Value} {types : List Shape}
    (h : List.Forall₂ (fun v t => v.matches? t = true) args types) (position : Nat) :
    mismatch? position args types = none := by
  induction h generalizing position with
  | nil => rfl
  | cons hv _ ih =>
      rw [mismatch?, if_pos hv]
      exact ih (position + 1)

theorem checkValues_eq_ok {s : Signal} {args : List Value}
    (h : List.Forall₂ (fun v t => v.matches? t = true) args s.types) :
    s.checkValues args = .ok () := by
  have hlength := h.length_eq
  rw [checkValues, if_neg (not_not.2 hlength), mismatch?_eq_none h]

/-- The types of a pack pass the check if and only if they are the declared ones. -/
theorem checkTypes_eq_ok_iff {s : Signal} {types : List Shape} :
    s.checkTypes types = .ok () ↔ types = s.types := by
  constructor
  · intro h
    unfold checkTypes at h
    split_ifs at h with hlength heq
    exact eq_of_beq heq
  · rintro rfl
    rw [checkTypes, if_neg (not_not.2 rfl), if_pos BEq.rfl]

end Signal

/-- What matches the declaration is sent. -/
theorem Emission.run_eq_send {b : Bus} (h : Host) {i : InterfaceId} {x : Instance}
    (hi : b.interface? i = some x) {e : Emission} {s : Signal}
    (hs : Entries.get? e.signal x.interface.signals = some s) (he : e.Matches s) :
    e.run h i b = b.send h i e.signal e.args s.argsType := by
  cases e with
  | values signal args =>
      have hs' : Entries.get? signal x.interface.signals = some s := hs
      simp only [run, Bus.emitValues, hi, hs', Signal.checkValues_eq_ok he]
      rfl
  | pack signal types args =>
      have hs' : Entries.get? signal x.interface.signals = some s := hs
      simp only [run, Bus.emitPack, hi, hs', Signal.checkTypes_eq_ok_iff.2 he]
      rfl

namespace SignalCall

/-- The bus after a call, whatever is answered. -/
def make (h : Host) (c : SignalCall) (b : Bus) : Bus :=
  (b.callEmit h c.transport c.address c.interface c.signal c.args c.argsType).2

/-- What is written down of a call, with whether it was delivered: only recorders write. -/
def entry (c : SignalCall) (b : Bus) : Option TraceEntry :=
  (b.recorder? c.transport).map fun r =>
    .emit r.label c.address c.interface c.signal c.args c.argsType (!r.dropsSignals)

/-! ## One call -/

section One

variable {b : Bus} (hb : b.Orderly) (h : Host) (c : SignalCall)

theorem make_of_none (ht : b.transport? c.transport = none) : c.make h b = b := by
  simp only [make, Bus.callEmit, ht]

theorem make_loopback {l : Loopback} (ht : b.transport? c.transport = some (.loopback l)) :
    c.make h b =
      match l.emit c.address c.interface c.signal c.args c.argsType with
      | .error _ => b
      | .ok l => b.setLoopback c.transport l := by
  simp only [make, Bus.callEmit, ht]
  cases l.emit c.address c.interface c.signal c.args c.argsType <;> rfl

include hb

theorem make_recorder {r : Recorder} (ht : b.transport? c.transport = some (.recorder r)) :
    c.make h b = b.writeTrace
      (.emit r.label c.address c.interface c.signal c.args c.argsType (!r.dropsSignals)) := by
  simp only [make, Bus.callEmit, ht]
  exact Bus.runHook_eq ((Bus.called_writeTrace b _).orderly hb) h .emit (some c.interface)

omit hb in
/-- **A call leaves all registrations where they are.** -/
theorem unchanged_announced (s : Transport) : s.Unchanged (s.announced c) := by
  cases s with
  | recorder r => exact ⟨rfl, rfl, rfl, rfl⟩
  | loopback l =>
      simp only [Transport.announced, Transport.Unchanged]
      cases hl : l.emit c.address c.interface c.signal c.args c.argsType with
      | error e => exact ⟨rfl, rfl, rfl⟩
      | ok l' => exact Loopback.kept_emit hl

/-- **A call concerns its transport** and nothing else. -/
theorem sets_make {s : Transport} (ht : b.transport? c.transport = some s) :
    Bus.Sets c.transport (s.announced c) b (c.make h b) := by
  cases s with
  | recorder r =>
      rw [make_recorder hb h c ht]
      exact (Bus.Sets.self ht).writeTrace _
  | loopback l =>
      rw [make_loopback h c ht]
      simp only [Transport.announced]
      cases hl : l.emit c.address c.interface c.signal c.args c.argsType with
      | error e => exact Bus.Sets.self ht
      | ok l' =>
          obtain ⟨hroot, hregistry, hmanaged⟩ := Loopback.kept_emit hl
          refine Bus.sets_adjustServer ht hroot ?_
          rintro _ _ ⟨⟩ ⟨⟩ ho
          exact ⟨hregistry ▸ ho.tidy, hregistry ▸ ho.occupied, hmanaged ▸ ho.managed⟩

theorem called_make : b.Called (c.make h b) := by
  cases ht : b.transport? c.transport with
  | none => rw [make_of_none h c ht]; exact Bus.Called.refl b
  | some s => exact (sets_make hb h c ht).called

theorem transport?_make (t : TransportId) : (c.make h b).transport? t =
    if t = c.transport then (b.transport? t).map (·.announced c) else b.transport? t := by
  cases ht : b.transport? c.transport with
  | none =>
      rw [make_of_none h c ht]
      split
      · next heq => rw [heq, ht]; rfl
      · rfl
  | some s =>
      rw [(sets_make hb h c ht).transport?]
      split
      · next heq => rw [heq, ht]; rfl
      · rfl

theorem trace_make : (c.make h b).desk.trace = b.desk.trace ++ (c.entry b).toList := by
  cases ht : b.transport? c.transport with
  | none =>
      rw [make_of_none h c ht, entry, Bus.recorder?, ht]
      simp
  | some s =>
      cases s with
      | recorder r =>
          rw [make_recorder hb h c ht, entry, Bus.recorder?_of_transport? ht]
          rfl
      | loopback l =>
          rw [make_loopback h c ht, entry, Bus.recorder?, ht]
          cases l.emit c.address c.interface c.signal c.args c.argsType with
          | error e => simp
          | ok l' => simp [Bus.setLoopback, Bus.adjustServer]

/-- What other calls write is the same before and after. -/
theorem entry_make (d : SignalCall) : d.entry (c.make h b) = d.entry b := by
  have hrecorder : (c.make h b).recorder? d.transport = b.recorder? d.transport := by
    rw [Bus.recorder?, Bus.recorder?, transport?_make hb h c]
    by_cases hd : d.transport = c.transport
    · rw [if_pos hd]
      cases b.transport? d.transport with
      | none => rfl
      | some s => cases s <;> rfl
    · rw [if_neg hd]
  rw [entry, entry, hrecorder]

/-- Calls cannot see what is held meanwhile. -/
theorem make_gripped (g : Grip) : c.make h (b.gripped g) = (c.make h b).gripped g := by
  have ht' : (b.gripped g).transport? c.transport = b.transport? c.transport :=
    Bus.transport?_gripped b g c.transport
  cases ht : b.transport? c.transport with
  | none => rw [make_of_none h c (ht'.trans ht), make_of_none h c ht]
  | some s =>
      cases s with
      | recorder r =>
          rw [make_recorder (hb.gripped g) h c (ht'.trans ht), make_recorder hb h c ht]
          rfl
      | loopback l =>
          rw [make_loopback h c (ht'.trans ht), make_loopback h c ht]
          cases l.emit c.address c.interface c.signal c.args c.argsType with
          | error e => rfl
          | ok l' => exact Bus.adjustServer_gripped b g c.transport (.loopback l')

end One

theorem transparent_make (h : Host) (c : SignalCall) : Bus.Transparent (c.make h) :=
  fun _ g hb _ => ⟨called_make hb h c, make_gripped hb h c g⟩

/-! ## One call after the other -/

/-- The bus after calls that are made in turn. -/
def makeAll (h : Host) (cs : List SignalCall) (b : Bus) : Bus :=
  cs.foldl (fun b c => c.make h b) b

section All

variable {b : Bus} (hb : b.Orderly) (h : Host) (cs : List SignalCall)

include hb

theorem called_makeAll : b.Called (makeAll h cs b) :=
  (Bus.Transparent.foldl cs (fun c _ => transparent_make h c) b .nothing hb
    (Grip.fits_nothing b)).1

/-- Every call is written down, in order, if its transport writes. -/
theorem trace_makeAll :
    (makeAll h cs b).desk.trace = b.desk.trace ++ cs.filterMap (·.entry b) := by
  induction cs generalizing b with
  | nil => simp [makeAll]
  | cons c cs ih =>
      have hentries : cs.filterMap (·.entry (c.make h b)) = cs.filterMap (·.entry b) :=
        List.filterMap_congr fun d _ => entry_make hb h c d
      calc
        (makeAll h (c :: cs) b).desk.trace
            = (c.make h b).desk.trace ++ cs.filterMap (·.entry (c.make h b)) :=
          ih ((called_make hb h c).orderly hb)
        _ = b.desk.trace ++ (c.entry b).toList ++ cs.filterMap (·.entry b) := by
          rw [hentries, trace_make hb h c]
        _ = b.desk.trace ++ (c :: cs).filterMap (·.entry b) := by
          rw [List.append_assoc, List.filterMap_cons]
          cases c.entry b <;> rfl

/-- A transport that is not called stays as it is. -/
theorem transport?_makeAll_of_not_mem {t : TransportId} (ht : t ∉ cs.map (·.transport)) :
    (makeAll h cs b).transport? t = b.transport? t := by
  induction cs generalizing b with
  | nil => rfl
  | cons c cs ih =>
      rw [List.map_cons, List.mem_cons, not_or] at ht
      calc
        (makeAll h (c :: cs) b).transport? t = (c.make h b).transport? t :=
          ih ((called_make hb h c).orderly hb) ht.2
        _ = b.transport? t := by rw [transport?_make hb h c, if_neg ht.1]

/-- **A transport that is called once** has got this call. -/
theorem transport?_makeAll_of_mem (hnodup : (cs.map (·.transport)).Nodup) {c : SignalCall}
    (hc : c ∈ cs) : (makeAll h cs b).transport? c.transport =
      (b.transport? c.transport).map (·.announced c) := by
  induction cs generalizing b with
  | nil => cases hc
  | cons d cs ih =>
      rw [List.map_cons, List.nodup_cons] at hnodup
      have hd := (called_make hb h d).orderly hb
      rcases List.mem_cons.1 hc with rfl | hc
      · calc
          (makeAll h (c :: cs) b).transport? c.transport = (c.make h b).transport? c.transport :=
            transport?_makeAll_of_not_mem hd h cs hnodup.1
          _ = (b.transport? c.transport).map (·.announced c) := by
            rw [transport?_make hb h c, if_pos rfl]
      · have hne : c.transport ≠ d.transport := by
          intro heq
          exact hnodup.1 (heq ▸ List.mem_map_of_mem hc)
        calc
          (makeAll h (d :: cs) b).transport? c.transport =
              ((d.make h b).transport? c.transport).map (·.announced c) := ih hd hnodup.2 hc
          _ = (b.transport? c.transport).map (·.announced c) := by
            rw [transport?_make hb h d, if_neg hne]

end All

end SignalCall

namespace Transport.Unchanged

theorem refl (s : Transport) : s.Unchanged s := by
  cases s with
  | recorder r => exact ⟨rfl, rfl, rfl, rfl⟩
  | loopback l => exact ⟨rfl, rfl, rfl⟩

theorem trans {s s' s'' : Transport} (h : s.Unchanged s') (h' : s'.Unchanged s'') :
    s.Unchanged s'' := by
  cases s <;> cases s' <;> cases s'' <;> simp_all [Transport.Unchanged]

theorem rel_refl (o : Option Transport) : Option.Rel Transport.Unchanged o o := by
  cases o with
  | none => exact Option.Rel.none
  | some s => exact Option.Rel.some (refl s)

theorem rel_trans {o o' o'' : Option Transport} (h : Option.Rel Transport.Unchanged o o')
    (h' : Option.Rel Transport.Unchanged o' o'') : Option.Rel Transport.Unchanged o o'' := by
  cases h with
  | none => exact h'
  | some h =>
      cases h' with
      | some h' => exact Option.Rel.some (h.trans h')

end Transport.Unchanged

namespace Bus

/-- Transports that were called, without a change of what is registered. -/
theorem Called.untouched {b b' : Bus} (hb : b.Orderly) (h : b.Called b')
    (hs : ∀ t, Option.Rel Transport.Unchanged (b.transport? t) (b'.transport? t)) :
    b.Untouched b' where
  forest := h.forest
  values i := by
    rw [h.interface?]
    cases b.interface? i with
    | none => exact Option.Rel.none
    | some x => exact Option.Rel.some ⟨rfl, rfl, rfl, rfl⟩
  servers t := by
    have halike := h.alike t
    have hunchanged := hs t
    unfold Bus.transport? at hunchanged
    generalize Entries.get? t b.transports = o at halike hunchanged
    generalize Entries.get? t b'.transports = o' at halike hunchanged
    cases halike with
    | none => exact Option.Rel.none
    | some halike =>
        cases hunchanged with
        | some hunchanged => exact Option.Rel.some ⟨halike.1, hunchanged⟩
  sorted_values := (h.orderly hb).interfaces
  sorted_servers := (h.orderly hb).transports
  next := Nat.le_of_eq h.next.symm

/-- **Calls that send signals** leave the tree, the values and all registrations as they are. -/
theorem untouched_makeAll {b : Bus} (hb : b.Orderly) (h : Host) {cs : List SignalCall} :
    b.Untouched (SignalCall.makeAll h cs b) := by
  refine (SignalCall.called_makeAll hb h cs).untouched hb fun t => ?_
  induction cs generalizing b with
  | nil => exact Transport.Unchanged.rel_refl (b.transport? t)
  | cons c cs ih =>
      have hone : Option.Rel Transport.Unchanged (b.transport? t) ((c.make h b).transport? t) := by
        rw [SignalCall.transport?_make hb h c]
        split
        · cases b.transport? t with
          | none => exact Option.Rel.none
          | some s => exact Option.Rel.some (SignalCall.unchanged_announced c s)
        · exact Transport.Unchanged.rel_refl (b.transport? t)
      exact Transport.Unchanged.rel_trans hone (ih ((SignalCall.called_make hb h c).orderly hb))

/-- **The calls of a signal** from a node: one for every live transport that the node is bound to. -/
def signalCalls (b : Bus) (n : NodeId) (x : Node) (interface signal : String) (args : List Value)
    (argsType : Shape) : List SignalCall :=
  (b.transportsOf x).map fun t =>
    { transport := t, address := b.addressText n t, interface, signal, args, argsType }

theorem transports_signalCalls (b : Bus) (n : NodeId) (x : Node) (interface signal : String)
    (args : List Value) (argsType : Shape) :
    (b.signalCalls n x interface signal args argsType).map (·.transport) = b.transportsOf x := by
  rw [signalCalls, List.map_map]
  exact List.map_id' _

/-! ## What comes of a signal -/

/-- **Makes calls with their transports in hand**: all are held before the first call, and each is
let go after its own. -/
def announce (h : Host) (calls : List SignalCall) (b : Bus) : Bus :=
  calls.foldl (fun b c => (c.make h b).releaseServer c.transport)
    (b.holdServers (calls.map (·.transport)))

/-- Transports that are live outlast the calls, so that letting go of them closes none. -/
theorem announce_signalCalls {b : Bus} (hb : b.Orderly) (h : Host) (n : NodeId) (x : Node)
    (interface signal : String) (args : List Value) (argsType : Shape) :
    b.announce h (b.signalCalls n x interface signal args argsType) =
      SignalCall.makeAll h (b.signalCalls n x interface signal args argsType) b := by
  have hheld := Transparent.foldl_release
    (fun t => SignalCall.transparent_make h
      ⟨t, b.addressText n t, interface, signal, args, argsType⟩) hb
    fun t ht => live_of_mem_transportsOf (x := x) ht
  rw [announce, transports_signalCalls, holdServers_eq hb, SignalCall.makeAll, signalCalls,
    List.foldl_map, List.foldl_map]
  exact hheld

/-- **What comes of a signal** that has passed its check. -/
inductive Sent (h : Host) (b : Bus) (i : InterfaceId) (x : Instance) (signal : String)
    (args : List Value) (argsType : Shape) : Except EmitError Unit × Bus → Prop where
  /-- Nothing: the value is not attached, or its node is gone, or the node has no such name. -/
  | nothing
      (hgone : ∀ n y, x.owner = some n → b.node? n = some y →
        Entries.get? x.interface.name y.interfaces = none) :
      Sent h b i x signal args argsType (.ok (), b)
  /-- The value is refused as a moved copy: its name is not its own, or it is dead. -/
  | refused {n : NodeId} {y : Node} {j : InterfaceId} (ho : x.owner = some n)
      (hn : b.node? n = some y) (hj : Entries.get? x.interface.name y.interfaces = some j)
      (hother : ¬(j = i ∧ b.isLiveInterface i = true)) :
      Sent h b i x signal args argsType (.error .movedCopy, b)
  /-- The registered value calls the transports of its node. -/
  | announced {n : NodeId} {y : Node} (ho : x.owner = some n) (hn : b.node? n = some y)
      (hj : Entries.get? x.interface.name y.interfaces = some i)
      (hlive : b.isLiveInterface i = true) :
      Sent h b i x signal args argsType
        (.ok (), b.announce h (b.signalCalls n y x.interface.name signal args argsType))

section Send

variable {b : Bus} (h : Host) {i : InterfaceId} {x : Instance} (hi : b.interface? i = some x)
  (signal : String) (args : List Value) (argsType : Shape)

include hi

theorem send_detached (ho : x.owner = none) :
    b.send h i signal args argsType = (.ok (), b) := by
  simp only [send, hi, ho]

variable {n : NodeId} (ho : x.owner = some n)

include ho

/-- A copy whose node is gone, or has no such name, emits nothing. -/
theorem send_astray
    (hgone : (b.node? n).bind (fun y => Entries.get? x.interface.name y.interfaces) = none) :
    b.send h i signal args argsType = (.ok (), b) := by
  cases hn : b.node? n with
  | none => simp only [send, hi, ho, hn]
  | some y =>
      rw [hn, Option.bind_some] at hgone
      simp only [send, hi, ho, hn, hgone]

variable {y : Node} (hn : b.node? n = some y) {j : InterfaceId}
  (hj : Entries.get? x.interface.name y.interfaces = some j)

include hn hj

/-- A copy whose name at its node is another value's, or was its own before it died, is refused. -/
theorem send_moved (hother : ¬(j = i ∧ b.isLiveInterface i = true)) :
    b.send h i signal args argsType = (.error .movedCopy, b) := by
  have hcheck : (j == i && b.isLiveInterface i) = false := by simpa using hother
  simp [send, hi, ho, hn, hj, hcheck]

/-- **The registered value** sends its signal with these calls, in whatever state the bus is. -/
theorem send_announces (hji : j = i) (hlive : b.isLiveInterface i = true) :
    b.send h i signal args argsType =
      (.ok (), b.announce h (b.signalCalls n y x.interface.name signal args argsType)) := by
  have hsame : (j == i && b.isLiveInterface i) = true := by simp [hji, hlive]
  simp only [send, hi, ho, hn, hj, hsame, if_true, fanOut, announce, signalCalls, List.map_map,
    List.foldl_map, SignalCall.make, Function.comp_def]

/-- **Between two operations** nothing but these calls remains, one after the other. -/
theorem send_registered (hb : b.Orderly) (hji : j = i) (hlive : b.isLiveInterface i = true) :
    b.send h i signal args argsType = (.ok (),
      SignalCall.makeAll h (b.signalCalls n y x.interface.name signal args argsType) b) := by
  rw [send_announces h hi signal args argsType ho hn hj hji hlive, announce_signalCalls hb]

end Send

section Sent

variable {b : Bus} (h : Host) {i : InterfaceId} {x : Instance} (hi : b.interface? i = some x)
  (signal : String) (args : List Value) (argsType : Shape)

include hi

/-- Sending has one of these results. -/
theorem sent_send : Sent h b i x signal args argsType (b.send h i signal args argsType) := by
  cases ho : x.owner with
  | none =>
      rw [send_detached h hi signal args argsType ho]
      exact .nothing fun n y ho' => by rw [ho] at ho'; cases ho'
  | some n =>
      cases hk : (b.node? n).bind fun y => Entries.get? x.interface.name y.interfaces with
      | none =>
          rw [send_astray h hi signal args argsType ho hk]
          refine .nothing fun m y ho' hn => ?_
          rw [ho, Option.some.injEq] at ho'
          subst ho'
          rwa [hn, Option.bind_some] at hk
      | some j =>
          obtain ⟨y, hn, hj⟩ := Option.bind_eq_some_iff.1 hk
          by_cases hsame : j = i ∧ b.isLiveInterface i = true
          · rw [send_announces h hi signal args argsType ho hn hj hsame.1 hsame.2]
            exact .announced ho hn (hsame.1 ▸ hj) hsame.2
          · rw [send_moved h hi signal args argsType ho hn hj hsame]
            exact .refused ho hn hj hsame

/-- No other result is one: the cases exclude each other. -/
theorem send_eq_iff {r : Except EmitError Unit × Bus} :
    b.send h i signal args argsType = r ↔ Sent h b i x signal args argsType r := by
  constructor
  · rintro rfl
    exact sent_send h hi signal args argsType
  · intro hr
    cases hr with
    | nothing hgone =>
        cases ho : x.owner with
        | none => exact send_detached h hi signal args argsType ho
        | some n =>
            refine send_astray h hi signal args argsType ho ?_
            cases hn : b.node? n with
            | none => rfl
            | some y => exact hgone n y ho hn
    | refused ho hn hj hother => exact send_moved h hi signal args argsType ho hn hj hother
    | announced ho hn hj hlive => exact send_announces h hi signal args argsType ho hn hj rfl hlive

end Sent

end Bus

open Bus in
/-- **A signal fans out.** After every run, and for everything that matches the declaration: the value
that its node has by its name calls each live transport of the node exactly once, in binding order and
whatever they answer, and no other transport; a value that is not attached calls none, and neither does
a clone; a copy that was moved out while its node still has the name is refused before any call. The
tree, the values and all registrations stay as they are. -/
theorem signal_fan_out {levels : Nat} {b : Bus} (hb : b.Reachable levels) (h : Host)
    {i : InterfaceId} {x : Instance} (hi : b.interface? i = some x) {e : Emission} {s : Signal}
    (hs : Entries.get? e.signal x.interface.signals = some s) (he : e.Matches s) :
    (∀ n y, x.owner = some n → b.node? n = some y →
      Entries.get? x.interface.name y.interfaces = some i →
      let calls := b.signalCalls n y x.interface.name e.signal e.args s.argsType
      let b' := (e.run h i b).2
      (e.run h i b).1 = .ok () ∧ b' = SignalCall.makeAll h calls b ∧
        calls.map (·.transport) = y.servers.filter b.isLiveServer ∧
        (calls.map (·.transport)).Nodup ∧
        b'.desk.trace = b.desk.trace ++ calls.filterMap (·.entry b) ∧
        (∀ c ∈ calls, b'.transport? c.transport =
          (b.transport? c.transport).map (·.announced c)) ∧
        (∀ t, t ∉ y.servers.filter b.isLiveServer → b'.transport? t = b.transport? t) ∧
        b.Untouched b') ∧
    (x.owner = none → e.run h i b = (.ok (), b)) ∧
    (e.run h b.next (b.newInstance { interface := x.interface }).2 =
      (.ok (), (b.newInstance { interface := x.interface }).2)) ∧
    (∀ n y j, x.owner = some n → b.node? n = some y →
      Entries.get? x.interface.name y.interfaces = some j → j ≠ i →
      e.run h i b = (.error .movedCopy, b)) ∧
    (∀ n, x.owner = some n →
      (b.node? n).bind (fun y => Entries.get? x.interface.name y.interfaces) = none →
      e.run h i b = (.ok (), b)) := by
  obtain ⟨hsound, hheld⟩ := Reachable.sound_held hb
  have horderly := hsound.orderly
  rw [Emission.run_eq_send h hi hs he]
  refine ⟨?_, send_detached h hi e.signal e.args s.argsType, ?_, ?_,
    fun n => send_astray h hi e.signal e.args s.argsType⟩
  · intro n y ho hn hk calls b'
    have hrun : b.send h i e.signal e.args s.argsType = (.ok (), SignalCall.makeAll h calls b) :=
      send_registered h hi e.signal e.args s.argsType ho hn hk horderly rfl
        (hheld.isLiveInterface hi)
    have hb' : b' = SignalCall.makeAll h calls b := congrArg Prod.snd hrun
    have hcalls : calls.map (·.transport) = y.servers.filter b.isLiveServer :=
      transports_signalCalls b n y x.interface.name e.signal e.args s.argsType
    have hnodup : (calls.map (·.transport)).Nodup :=
      hcalls ▸ (Reachable.boundOnce hb hn).filter _
    refine ⟨congrArg Prod.fst hrun, hb', hcalls, hnodup, ?_, ?_, ?_, ?_⟩
    · rw [hb']
      exact SignalCall.trace_makeAll horderly h calls
    · intro c hc
      rw [hb']
      exact SignalCall.transport?_makeAll_of_mem horderly h calls hnodup hc
    · intro t ht
      rw [hb']
      exact SignalCall.transport?_makeAll_of_not_mem horderly h calls (hcalls ▸ ht)
    · rw [hb']
      exact untouched_makeAll horderly h
  · -- a clone is a value of its own
    have hclone : (b.newInstance { interface := x.interface }).2.interface? b.next =
        some { interface := x.interface } := by
      rw [interface?_newInstance, if_pos rfl]
    rw [Emission.run_eq_send h hclone hs he]
    exact send_detached h hclone e.signal e.args s.argsType rfl
  · intro n y j ho hn hk hne
    exact send_moved h hi e.signal e.args s.argsType ho hn hk fun hsame => hne hsame.1

section Example

/-- An interface with a signal. -/
def lamp : Interface :=
  { name := "lamp", signals := [("lit", { names := ["on"], types := [.scalar .bool] })] }

/-- A lamp at a node with two transports, where another lamp was before it was moved out. -/
def relit : Bus :=
  Bus.after 0 [.openRecorder "a" "/", .openRecorder "b" "/up", .makeRoot "n", .bind 0 0, .bind 0 1,
    .build lamp, .makeInterface 2 0, .takeOut 2, .build lamp, .makeInterface 4 0]

/-- The lamp calls both transports, and the other one is refused. -/
theorem signal_fans_out_of_relit :
    let e : Emission := .values "lit" [.scalar .bool true]
    let r := e.run .inert 4 relit
    r.1 = .ok () ∧ r.2.desk.trace.length = relit.desk.trace.length + 2 ∧ relit.Untouched r.2 ∧
      e.run .inert 3 relit = (.error .movedCopy, relit) := by
  intro e r
  have hb : relit.Reachable 0 := Bus.reaches_after fun _ _ _ => trivial
  have hlamp : ∀ i, i = 3 ∨ i = 4 → ∃ x s, relit.interface? i = some x ∧ x.owner = some 0 ∧
      x.interface.name = "lamp" ∧ Entries.get? "lit" x.interface.signals = some s ∧
      e.Matches s := by
    intro i hi
    have hview : (relit.interface? i).map (fun x => (x.owner, x.interface.name,
        (Entries.get? "lit" x.interface.signals).map fun s =>
          s.types.map (Value.matches? (.scalar .bool true)))) =
        some (some 0, "lamp", some [true]) := by
      rcases hi with rfl | rfl <;> decide +kernel
    obtain ⟨x, hx, hview⟩ := Option.map_eq_some_iff.1 hview
    simp only [Prod.mk.injEq] at hview
    obtain ⟨ho, hname, hview⟩ := hview
    obtain ⟨s, hs, htypes⟩ := Option.map_eq_some_iff.1 hview
    refine ⟨x, s, hx, ho, hname, hs, ?_⟩
    obtain ⟨t, ht, hmatches⟩ := List.map_eq_singleton_iff.1 htypes
    show List.Forall₂ _ _ s.types
    rw [ht]
    exact List.Forall₂.cons hmatches List.Forall₂.nil
  obtain ⟨y, hy, hname⟩ : ∃ y, relit.node? 0 = some y ∧
      Entries.get? "lamp" y.interfaces = some 4 := by
    have hview : (relit.node? 0).bind (fun y => Entries.get? "lamp" y.interfaces) = some 4 := by
      decide +kernel
    exact Option.bind_eq_some_iff.1 hview
  obtain ⟨x, s, hx, ho, hlamp₄, hs, he⟩ := hlamp 4 (Or.inr rfl)
  have hsends := (signal_fan_out (e := e) hb .inert hx hs he).1 0 y ho hy (hlamp₄ ▸ hname)
  obtain ⟨x', s', hx', ho', hlamp₃, hs', he'⟩ := hlamp 3 (Or.inl rfl)
  have hrefused := (signal_fan_out (e := e) hb .inert hx' hs' he').2.2.2.1 0 y 4 ho' hy (hlamp₃ ▸ hname)
    (by decide)
  exact ⟨hsends.1, by decide +kernel, hsends.2.2.2.2.2.2.2, hrefused⟩

end Example

end ObjectBus
