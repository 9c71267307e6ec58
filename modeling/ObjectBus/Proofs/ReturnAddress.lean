import ObjectBus.Proofs.Address.Canonical
import ObjectBus.Proofs.Callbacks.Commands
import ObjectBus.Proofs.Dispatch
import ObjectBus.Proofs.Emission
import ObjectBus.Proofs.Placement
import ObjectBus.Proofs.Trie.Listing

/-!
# The return address of a signal

An emission computes the address of a signal from the tree, and no registry is asked. So the address
leads back to the value that emitted if and only if the name of the value is in place there
(`Bus.InPlace`). Where it is in place, it stays so in every run in which nobody ousts it, and the event
of every signal leads back (`signal_leads_back`): its address is listed, with its name, and a call to the
two arrives at the value.

A signal leads nowhere (`signal_leads_nowhere`) where the node has moved to an address that is held
already: it shows its names and has none of them registered, emits as before, and what it emits names the
address of the other node. The same is true of a name that a transport attaches to a node while the node
is being moved, when what moves with it has been noted. And an address whose text is not in its normal
form is registered in normal form, and sent as it is.
-/

set_option autoImplicit false

namespace ObjectBus

namespace Loopback

/-- Whoever hears a signal hears it last. -/
theorem inbox_deliver (l : Loopback) (d : Delivery) (j : Nat) :
    (l.deliver d).inbox j = [] ∨ ∃ events, (l.deliver d).inbox j = events ++ [d] := by
  unfold inbox deliver
  rw [List.find?_map]
  cases (l.subscribers.filter (·.listening)).find? _ with
  | none => exact Or.inl rfl
  | some s => exact Or.inr ⟨s.inbox, rfl⟩

/-- **A signal was heard**: the transport runs, and the event is the signal. -/
theorem heard_of_emit {l l' : Loopback} {address interface signal : String} {args : List Value}
    {argsType : Shape}
    (h : (l.emit address interface signal args argsType).toOption.getD l = l') {j : Nat}
    {d : Delivery} (hd : l'.inbox j = l.inbox j ++ [d]) :
    l'.running = true ∧ l'.registry = l.registry ∧ d.address = address ∧
      d.interface = interface := by
  subst h
  unfold emit at hd ⊢
  cases hrunning : l.running with
  | false => simp [checkRunning, hrunning, Except.toOption] at hd
  | true =>
      have hcheck : l.checkRunning = .ok () := checkRunning_eq_ok_iff.2 hrunning
      cases hargs : l.exportValues args with
      | error e => simp [hcheck, hargs, Except.toOption] at hd
      | ok ws =>
          simp only [hcheck, hargs, Except.toOption, Option.getD_some] at hd ⊢
          have hlast : d = { address, interface, signal, args := ws, argsType } := by
            rcases inbox_deliver l { address, interface, signal, args := ws, argsType } j with
              hnone | ⟨events, hevents⟩
            · rw [hnone] at hd
              simp at hd
            · rw [hevents] at hd
              simpa using (List.append_inj' hd rfl).2.symm
          subst hlast
          exact ⟨hrunning, rfl, rfl, rfl⟩

/-- **A registered name is listed**: the address, if it is a proper one, and the name at every text
that is read as this address. -/
theorem Registers.listed {l : Loopback} {a : Address} {k : String} {n : Option NodeId}
    (h : l.Registers a k n) {text : String} (htext : Address.parse text = .ok a) :
    a.render ∈ l.addresses ∧ k ∈ l.namesAt text := by
  obtain ⟨r, hr, -, hk⟩ := h
  refine ⟨?_, ?_⟩
  · exact List.mem_map.2 ⟨(a, r), Trie.mem_toList hr (Address.proper_of_parse htext), rfl⟩
  · simp only [namesAt, htext, hr]
    exact Entries.get?_isSome_iff.1 hk

/-- **A text that is read as a listed address is listed** if and only if it is in canonical form, without
repeated or trailing slashes. -/
theorem mem_addresses_iff_canonical {l : Loopback} {text : String} {a : Address}
    (htext : Address.parse text = .ok a) (ha : a.render ∈ l.addresses) :
    text ∈ l.addresses ↔ Address.canonical text = text := by
  have hcanonical := (Address.parse_eq_ok_iff.1 htext).2
  constructor
  · intro hmem
    obtain ⟨⟨a', r⟩, hr, rfl⟩ := List.mem_map.1 hmem
    -- what is listed is proper, so the text is read as the address that is listed for it
    have hparse := Address.parse_render (Trie.proper_of_mem_toList hr)
    obtain rfl : a' = a := by simpa using hparse.symm.trans htext
    exact hcanonical
  · intro h
    rwa [← h, hcanonical]

end Loopback

/-- What is emitted is sent, or nothing happens. -/
theorem Emission.run_cases (e : Emission) (h : Host) (i : InterfaceId) (b : Bus) :
    (e.run h i b).2 = b ∨
      ∃ argsType, (e.run h i b).2 = (b.send h i e.signal e.args argsType).2 := by
  cases hi : b.interface? i with
  | none => cases e <;> simp [run, Bus.emitValues, Bus.emitPack, hi]
  | some x =>
      cases e with
      | values signal args =>
          simp only [run, Bus.emitValues, hi, Emission.signal, Emission.args]
          cases hs : Entries.get? signal x.interface.signals with
          | none => simp
          | some s =>
              cases hc : s.checkValues args with
              | error e => simp [hc]
              | ok u => exact Or.inr ⟨s.argsType, by simp [hc]⟩
      | pack signal types args =>
          simp only [run, Bus.emitPack, hi, Emission.signal, Emission.args]
          cases hs : Entries.get? signal x.interface.signals with
          | none => simp
          | some s =>
              cases hc : s.checkTypes (Native.shapes types) with
              | error e => simp [hc]
              | ok u => exact Or.inr ⟨s.argsType, by simp [hc]⟩

namespace Bus

section Send

variable {b : Bus} (h : Host) {i : InterfaceId} (signal : String) (args : List Value)
  (argsType : Shape)

/-- **Only a value that its node has by its name sends**; otherwise nothing happens. -/
theorem send_cases (hb : b.Orderly) {x : Instance} (hi : b.interface? i = some x) :
    (b.send h i signal args argsType).2 = b ∨
      ∃ n y, x.owner = some n ∧ b.node? n = some y ∧
        Entries.get? x.interface.name y.interfaces = some i ∧
        (b.send h i signal args argsType).2 = SignalCall.makeAll h
          (b.signalCalls n y x.interface.name signal args argsType) b := by
  have hsent := sent_send h hi signal args argsType
  generalize b.send h i signal args argsType = r at hsent ⊢
  cases hsent with
  | nothing => exact Or.inl rfl
  | refused => exact Or.inl rfl
  | @announced n y ho hn hj =>
      exact Or.inr ⟨n, y, ho, hn, hj,
        announce_signalCalls hb h n y x.interface.name signal args argsType⟩

end Send

/-! ## What a listener hears -/

/-- **A signal was heard** from a value: the node of the value has it by its name and is bound to the
transport, which runs, and the event says where the node stands. -/
structure Heard (b b' : Bus) (t : TransportId) (l l' : Loopback) (i : InterfaceId) (x : Instance)
    (n : NodeId) (y : Node) (d : Delivery) : Prop where
  owner : x.owner = some n
  node : b.node? n = some y
  named : Entries.get? x.interface.name y.interfaces = some i
  bound : t ∈ b.transportsOf y
  running : l'.running = true
  registry : l'.registry = l.registry
  address : d.address = b.addressText n t
  name : d.interface = x.interface.name
  called : b.Called b'

section Hearing

variable {levels : Nat} {b : Bus} (h : Host) {i : InterfaceId} {x : Instance} (e : Emission)
  {t : TransportId} {l l' : Loopback} {j : Nat} {d : Delivery}

theorem heard_of_inbox (hb : b.Reachable levels) (hi : b.interface? i = some x)
    (hl : b.loopback? t = some l) (hl' : (e.run h i b).2.loopback? t = some l')
    (hd : l'.inbox j = l.inbox j ++ [d]) :
    ∃ n y, b.Heard (e.run h i b).2 t l l' i x n y d := by
  have hsound := hb.sound_held.1
  -- where nothing happens nobody hears anything
  have hquiet : l' ≠ l := by
    rintro rfl
    simp at hd
  rcases e.run_cases h i b with hsame | ⟨argsType, hsend⟩
  · rw [hsame, hl] at hl'
    exact absurd (Option.some.inj hl').symm hquiet
  · rw [hsend] at hl' ⊢
    rcases send_cases h e.signal e.args argsType hsound.orderly hi with
      hsame | ⟨n, y, ho, hn, hk, hcalls⟩
    · rw [hsame, hl] at hl'
      exact absurd (Option.some.inj hl').symm hquiet
    · rw [hcalls] at hl' ⊢
      have htransports := transports_signalCalls b n y x.interface.name e.signal e.args argsType
      have hnodup : (b.transportsOf y).Nodup := (hb.boundOnce hn).filter _
      by_cases ht : t ∈ b.transportsOf y
      · have hmem : (⟨t, b.addressText n t, x.interface.name, e.signal, e.args, argsType⟩ :
            SignalCall) ∈ b.signalCalls n y x.interface.name e.signal e.args argsType :=
          List.mem_map_of_mem ht
        have hcall := SignalCall.transport?_makeAll_of_mem hsound.orderly h _
          (htransports ▸ hnodup) hmem
        rw [transport?_of_loopback? hl, transport?_of_loopback? hl'] at hcall
        have hannounced : (l.emit (b.addressText n t) x.interface.name e.signal e.args
            argsType).toOption.getD l = l' := by
          simpa [Transport.announced] using hcall.symm
        obtain ⟨hrunning, hregistry, haddress, hname⟩ := Loopback.heard_of_emit hannounced hd
        exact ⟨n, y, ho, hn, hk, ht, hrunning, hregistry, haddress, hname,
          SignalCall.called_makeAll hsound.orderly h _⟩
      · have hother := SignalCall.transport?_makeAll_of_not_mem hsound.orderly h
          (b.signalCalls n y x.interface.name e.signal e.args argsType) (t := t) (by rwa [htransports])
        rw [transport?_of_loopback? hl, transport?_of_loopback? hl'] at hother
        simp only [Option.some.injEq, Transport.loopback.injEq] at hother
        exact absurd hother hquiet

end Hearing

/-! ## Back to the value -/

section Back

variable {levels : Nat} {b : Bus} (h : Host) {i : InterfaceId} {x : Instance} {e : Emission}
  {t : TransportId} {l l' : Loopback} {j : Nat} {d : Delivery} {n : NodeId}

/-- **The event of a signal leads back to its value if and only if the name of the value is in
place**, in every reachable bus. -/
theorem resolves_iff_inPlace (hb : b.Reachable levels) (hi : b.interface? i = some x)
    (ho : x.owner = some n) (hl : b.loopback? t = some l)
    (hl' : (e.run h i b).2.loopback? t = some l') (hd : l'.inbox j = l.inbox j ++ [d]) :
    (e.run h i b).2.resolve l' d.address d.interface = .ok (i, x.interface) ↔
      b.InPlace n t x.interface.name := by
  obtain ⟨hsound, hheld⟩ := hb.sound_held
  obtain ⟨n', y, hheard⟩ := heard_of_inbox h e hb hi hl hl' hd
  obtain rfl := Option.some.inj (ho.symm.trans hheard.owner)
  have hlive := hheld.isLiveInterface hi
  have hshows : b.Shows n t x.interface.name :=
    ⟨y, i, hheard.node, hheard.bound, hheard.named, hlive⟩
  have hregisters : ∀ {a k o}, l'.Registers a k o ↔ b.Registered t a k o := by
    intro a k o
    simp only [Loopback.Registers, hheard.registry, Registered, hl, Option.some.injEq,
      exists_eq_left']
  rw [resolve_eq_ok_iff, hheard.name, hheard.address]
  constructor
  · rintro ⟨-, a, m, z, ha, hr, hm, hz, hk, -⟩ - -
    refine ⟨a, readAddress_eq_some.2 ha, ?_⟩
    -- the value is in the table of its owner only
    rw [hheard.called.node?] at hz
    have howner := (hsound.entry hz hk hi).2
    obtain rfl := Option.some.inj (ho.symm.trans howner)
    exact hregisters.1 hr
  · intro hplace
    obtain ⟨a, ha, hr⟩ := hplace hshows (by rw [hl]; rfl)
    refine ⟨hheard.running, a, n, y, readAddress_eq_some.1 ha, hregisters.2 hr, ?_, ?_,
      hheard.named, ?_, x, ?_, rfl⟩
    · rw [hheard.called.isLiveNode, hheld.isLiveNode hheard.node]
    · rw [hheard.called.node?, hheard.node]
    · rw [hheard.called.isLiveInterface, hlive]
    · rw [hheard.called.interface?, hi]

/-- **A delivered signal names where its emitter can be reached.** From a state in which the name of the
emitter is in place, in every run in which nobody ousts it: the address of the event is where the node of
the emitter stands; it is read as an address that the transport lists, and its text is listed if and only
if it is in canonical form; the name of the event is listed there; and a call to the two arrives at the
value that emitted. -/
theorem signal_leads_back {b₀ : Bus} (hb₀ : b₀.Reachable levels)
    (hplace : b₀.InPlace n t x.interface.name)
    (hrun : b₀.LeadsBy levels (fun b op => ¬Ousts levels b n t x.interface.name op) b)
    (hi : b.interface? i = some x) (ho : x.owner = some n) (hl : b.loopback? t = some l)
    (hl' : (e.run h i b).2.loopback? t = some l') (hd : l'.inbox j = l.inbox j ++ [d]) :
    d.address = b.addressText n t ∧ d.interface = x.interface.name ∧
      (∃ a, Address.parse d.address = .ok a ∧ a.render ∈ l'.addresses) ∧
      (d.address ∈ l'.addresses ↔ Address.canonical d.address = d.address) ∧
      d.interface ∈ l'.namesAt d.address ∧
      (e.run h i b).2.resolve l' d.address d.interface = .ok (i, x.interface) := by
  have hb := hrun.reachable hb₀
  obtain ⟨n', y, hheard⟩ := heard_of_inbox h e hb hi hl hl' hd
  obtain rfl := Option.some.inj (ho.symm.trans hheard.owner)
  have hresolve :=
    (resolves_iff_inPlace h hb hi ho hl hl' hd).2 (hplace.of_leadsBy hb₀ hrun)
  obtain ⟨-, a, m, -, ha, hr, -⟩ := resolve_eq_ok_iff.1 hresolve
  obtain ⟨haddress, hname⟩ := hr.listed ha
  exact ⟨hheard.address, hheard.name, ⟨a, ha, haddress⟩,
    Loopback.mem_addresses_iff_canonical ha haddress, hname, hresolve⟩

end Back

section Examples

/-- A loopback transport is started, and somebody listens to it. -/
def listening (b : Bus) (t : TransportId) (k : Nat) : Bus :=
  match b.loopback? t with
  | none => b
  | some l => b.setLoopback t ({ l with running := true }.subscribe k)

theorem untouched_listening {b : Bus} (hb : b.Orderly) (t : TransportId) (k : Nat) :
    b.Untouched (b.listening t k) := by
  unfold listening
  cases hl : b.loopback? t with
  | none => exact (Called.refl b).untouched hb fun t => Transport.Unchanged.rel_refl _
  | some l =>
      have ht := transport?_of_loopback? hl
      have hsets : Sets t (.loopback ({ l with running := true }.subscribe k)) b
          (b.setLoopback t ({ l with running := true }.subscribe k)) := by
        refine sets_adjustServer ht rfl fun l₀ l₁ h₀ h₁ ho => ?_
        cases h₀
        cases h₁
        exact ⟨ho.tidy, ho.occupied, ho.managed⟩
      refine hsets.called.untouched hb fun t' => ?_
      rw [hsets.transport?]
      split
      · next htt => rw [htt, ht]; exact .some ⟨rfl, rfl, rfl⟩
      · exact Transport.Unchanged.rel_refl _

/-- The lamp is switched on. -/
def switchOn : Emission := .values "lit" [.scalar .bool true]

/-- **A signal of an attached value is heard**: one listener of a transport has one event more. -/
structure Hears (b b' : Bus) (t : TransportId) (j : Nat) (n : NodeId) (i : InterfaceId) (x : Instance)
    (l l' : Loopback) (d : Delivery) : Prop where
  value : b.interface? i = some x
  owner : x.owner = some n
  attached : b.Has n x.interface.name i
  before : b.loopback? t = some l
  after : b'.loopback? t = some l'
  event : l'.inbox j = l.inbox j ++ [d]

/-- **The event of a signal leads nowhere**: its address is listed, without the name of the event, and no
call to the two arrives at the value. -/
def LeadsNowhere (b b' : Bus) (t : TransportId) (j : Nat) (n : NodeId) (i : InterfaceId) : Prop :=
  ∃ x l l' d, b.Hears b' t j n i x l l' d ∧ d.address ∈ l'.addresses ∧
    d.interface ∉ l'.namesAt d.address ∧ ∀ f, b'.resolve l' d.address d.interface ≠ .ok (i, f)

section Views

variable (b b' : Bus) (t : TransportId) (j : Nat) (n : NodeId) (i : InterfaceId)
  (name address : String)
  (hvalue : (b.interface? i).map (fun x => (x.owner, x.interface.name)) = some (some n, name))
  (hnode : (b.node? n).bind (fun y => Entries.get? name y.interfaces) = some i)
  (hbefore : (b.loopback? t).map (fun l => (l.inbox j).length) = some 0)
  (hafter : (b'.loopback? t).map (fun l => (l.inbox j).map fun d => (d.address, d.interface)) =
    some [(address, name)])

include hvalue hnode hbefore hafter

theorem exists_hears : ∃ x l l' d, b.Hears b' t j n i x l l' d ∧ x.interface.name = name ∧
    d.address = address ∧ d.interface = name := by
  obtain ⟨x, hx, hvalue⟩ := Option.map_eq_some_iff.1 hvalue
  obtain ⟨ho, rfl⟩ := Prod.mk.inj hvalue
  obtain ⟨l, hl, hnone⟩ := Option.map_eq_some_iff.1 hbefore
  obtain ⟨l', hl', hone⟩ := Option.map_eq_some_iff.1 hafter
  obtain ⟨d, hd, heq⟩ := List.map_eq_singleton_iff.1 hone
  obtain ⟨haddress, hname⟩ := Prod.mk.inj heq
  have hevent : l'.inbox j = l.inbox j ++ [d] := by
    rw [List.length_eq_zero_iff.1 hnone, hd, List.nil_append]
  exact ⟨x, l, l', d, ⟨hx, ho, Option.bind_eq_some_iff.1 hnode, hl, hl', hevent⟩, rfl, haddress, hname⟩

theorem leadsNowhere_of_lists
    (hlists : (b'.loopback? t).map (fun l => (l.addresses.contains address,
      (l.namesAt address).contains name, (l.resolve address name).isOk)) =
      some (true, false, false)) : b.LeadsNowhere b' t j n i := by
  obtain ⟨x, l, l', d, hears, -, rfl, rfl⟩ := exists_hears b b' t j n i name address hvalue hnode hbefore hafter
  rw [hears.after, Option.map_some, Option.some.injEq, Prod.mk.injEq, Prod.mk.injEq] at hlists
  obtain ⟨haddress, hnames, hresolve⟩ := hlists
  refine ⟨x, l, l', d, hears, by simpa using haddress, by simpa using hnames, fun f h => ?_⟩
  obtain ⟨-, a, m, -, ha, hr, -⟩ := resolve_eq_ok_iff.1 h
  rw [Loopback.resolve_eq_ok_iff.2 ⟨a, ha, hr⟩] at hresolve
  cases hresolve

end Views

/-- A lamp moves with its node to an address that another node holds. -/
def crowding : List Operation :=
  [.openLoopback { name := "t", root := "/" }, .makeRoot "r", .bind 0 0, .makeChild 0 "g",
    .makeChild 1 "m", .makeChild 1 "x", .makeChild 3 "m", .build { name := "I" },
    .makeInterface 1 2, .build lamp, .makeInterface 2 4, .dropNode 3]

/-- The other node has gone, and the node of the lamp was bound anew. -/
def mended : Bus := after 0 (crowding ++ [.dropNode 2, .unbind 4 0, .bind 4 0])

/-- The lamp has moved on with its node, and somebody listens. -/
def movedOn : Bus := ((Operation.dropNode 1).apply 0 mended).listening 0 7

/-- A lamp that was ousted and put in place again moves with its node, and its signal names the new
address. -/
theorem signal_leads_back_after_moving :
    ∃ x l l' d, movedOn.Hears (switchOn.run .inert 2 movedOn).2 0 7 4 2 x l l' d ∧
      d.address = "/r/m" ∧ d.address ∈ l'.addresses ∧
      (switchOn.run .inert 2 movedOn).2.resolve l' d.address d.interface = .ok (2, x.interface) := by
  have hmended : mended.Reachable 0 := reaches_after fun _ _ _ => trivial
  have hplace : mended.InPlace 4 0 "lamp" := fun _ _ =>
    ⟨⟨["r", "g", "m"]⟩, by decide +kernel, registered_iff.2 (by decide +kernel)⟩
  -- it is moved, and nobody is where it comes to
  have hdrop : ¬Ousts 0 mended 4 0 "lamp" (.dropNode 1) := by
    intro h
    cases h with
    | displaced _ _ _ stays =>
        have hparent : (mended.node? 4).bind (·.parent) = some 1 := by decide +kernel
        have habove : (mended.node? 1).bind (·.parent) = some 0 := by decide +kernel
        obtain ⟨y, hy, hp⟩ := Option.bind_eq_some_iff.1 hparent
        obtain ⟨x, hx, hpx⟩ := Option.bind_eq_some_iff.1 habove
        exact stays 1 rfl ⟨.child hy hp, x, hx, by rw [hpx]; rfl⟩
    | @crowded _ _ a _ _ _ there crowds =>
        have haddress : ((Operation.dropNode 1).apply 0 mended).addressOn 4 0 = some ⟨["r", "m"]⟩ := by
          decide +kernel
        rw [haddress, Option.some.injEq] at there
        subst there
        rcases crowds with ⟨m, k, -, -, -, hr, -⟩ | ⟨-, front, back, d, k, hmovers, hd, -⟩
        · have hfree : ((mended.loopback? 0).bind fun l =>
              l.registry.get? ⟨["r", "m"]⟩).map (·.node) = none := by decide +kernel
          rw [registered_iff, Option.map_eq_none_iff.1 hfree] at hr
          cases hr
        · have hone : mended.movers 1 = [4] := by decide +kernel
          rw [hone] at hmovers
          cases front with
          | nil => cases hd
          | cons c front => simp at hmovers
  have hmoved : mended.LeadsBy 0 (fun b op => ¬Ousts 0 b 4 0 "lamp" op)
      ((Operation.dropNode 1).apply 0 mended) := .step _ .refl hdrop
  have hrun := hmoved.elsewhere
    (untouched_listening (hmoved.reachable hmended).sound_held.1.orderly 0 7)
  obtain ⟨x, l, l', d, hears, hname, haddress, -⟩ :=
    exists_hears movedOn (switchOn.run .inert 2 movedOn).2 0 7 4 2 "lamp" "/r/m" (by decide +kernel)
      (by decide +kernel) (by decide +kernel) (by decide +kernel)
  obtain ⟨-, -, -, htext, -, hresolve⟩ := signal_leads_back .inert hmended (hname ▸ hplace)
    (hname ▸ hrun) hears.value hears.owner hears.before hears.after hears.event
  exact ⟨x, l, l', d, hears, haddress, htext.2 (haddress ▸ by decide +kernel), hresolve⟩

/-- The lamp has moved to an address that another node holds, and somebody listens. -/
def crowdedOut : Bus := (after 0 crowding).listening 0 7

theorem crowdedOut_leadsNowhere :
    crowdedOut.LeadsNowhere (switchOn.run .inert 2 crowdedOut).2 0 7 4 2 :=
  leadsNowhere_of_lists _ _ _ _ _ _ "lamp" "/r/g/m" (by decide +kernel) (by decide +kernel)
    (by decide +kernel) (by decide +kernel) (by decide +kernel)

/-- A node is moved; on the way a transport attaches a lamp to it. -/
def attachedInTransit : Bus :=
  Session.busAfter 3
    [.openLoopback "t" "t" "/" false, .recorder "m" "/", .root "g" "g", .bind "g" "t",
      .child "x" "g" "x", .child "d" "x" "d", .bind "d" "m", .declare "i" "I" [] [] [],
      .attach "i" "d",
      .declare "k" "lamp" [] [] [("lit", { names := ["on"], types := [.scalar .bool] })],
      .hook "m" .drop none [.attach "k" "d"], .subscribe "t" "e", .dropNode "x"]

theorem attachedInTransit_leadsNowhere :
    attachedInTransit.LeadsNowhere (switchOn.run .inert 3 attachedInTransit).2 0 4 2 3 :=
  leadsNowhere_of_lists _ _ _ _ _ _ "lamp" "/g/d" (by decide +kernel) (by decide +kernel)
    (by decide +kernel) (by decide +kernel) (by decide +kernel)

/-- A lamp at a node whose name has two slashes in it, and somebody listens. -/
def slashed : Bus :=
  (after 0 [.openLoopback { name := "t", root := "/" }, .makeRoot "a//b", .bind 0 0, .build lamp,
    .makeInterface 1 0]).listening 0 7

/-- The address is registered with one slash, and sent with two. -/
theorem slashed_sent_unlisted :
    ∃ x l l' d, slashed.Hears (switchOn.run .inert 1 slashed).2 0 7 0 1 x l l' d ∧
      d.address = "/a//b" ∧ l'.addresses = ["/a/b"] := by
  obtain ⟨x, l, l', d, hears, -, haddress, -⟩ :=
    exists_hears slashed (switchOn.run .inert 1 slashed).2 0 7 0 1 "lamp" "/a//b" (by decide +kernel)
      (by decide +kernel) (by decide +kernel) (by decide +kernel)
  have hlists : ((switchOn.run .inert 1 slashed).2.loopback? 0).map (·.addresses) =
      some ["/a/b"] := by decide +kernel
  rw [hears.after, Option.map_some, Option.some.injEq] at hlists
  exact ⟨x, l, l', d, hears, haddress, hlists⟩

/-- **A signal may lead nowhere.** The lamp is attached, and its signal is heard. But its node could not
be registered again after it was moved, or the lamp was attached while the node was on its way; so the
name of the lamp is not listed at the address of the event, and a call to it does not arrive. And where
the name of a node has slashes too many, the address of the event is not listed as it is written. -/
theorem signal_leads_nowhere :
    (crowdedOut.Reachable 0 ∧
      crowdedOut.LeadsNowhere (switchOn.run .inert 2 crowdedOut).2 0 7 4 2) ∧
    attachedInTransit.LeadsNowhere (switchOn.run .inert 3 attachedInTransit).2 0 4 2 3 ∧
    slashed.Reachable 0 ∧
      ∃ x l l' d, slashed.Hears (switchOn.run .inert 1 slashed).2 0 7 0 1 x l l' d ∧
        d.address ∉ l'.addresses := by
  have hlistened : ∀ {b : Bus}, b.Reachable 0 → (b.listening 0 7).Reachable 0 := fun hb =>
    hb.elsewhere (untouched_listening hb.sound_held.1.orderly 0 7)
  refine ⟨⟨hlistened (reaches_after fun _ _ _ => trivial), crowdedOut_leadsNowhere⟩,
    attachedInTransit_leadsNowhere, hlistened (reaches_after fun _ _ _ => trivial), ?_⟩
  obtain ⟨x, l, l', d, hears, haddress, hlisted⟩ := slashed_sent_unlisted
  exact ⟨x, l, l', d, hears, by rw [haddress, hlisted]; decide⟩

end Examples

end Bus

end ObjectBus
