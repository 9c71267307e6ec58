import ObjectBus.Proofs.Value.Exchange
import ObjectBus.Loopback

/-!
# Delivery

What a listener of a loopback transport gets to see. A run of a transport is a list of what is done
to it (`Loopback.Action`): it is started and stopped, names come and go in its registry, objects are
managed and given up, signals are emitted; and listeners join, look at their events, and go away. The
listeners are counted in the order in which they join, so that no two of them are confused.

On the one side stands what one listener sees in the course of a run, look by look (`received`); on
the other the signals that are sent in that run, in order (`announced`), in which nothing occurs of any
listener. A listener who stays sees what is sent from when he joined, and nothing else
(`received_eq_announced`). The induction is on the run, and what carries it is `Listening`: the
listener stands on the list exactly once, with what was sent since the last look.
-/

set_option autoImplicit false

namespace ObjectBus.Loopback

/-- **A transport and its listeners' numbers.** The next one to join gets the number `joined`. -/
structure Station where
  transport : Loopback
  joined : Nat := 0

/-- **What is done to a transport.** Addresses come as texts; where a text is no address, nothing is
done. -/
inductive Action where
  | start
  | stop
  | subscribe
  | close (k : Nat)
  | look (k : Nat)
  | register (isLive : NodeId → Bool) (text : String) (node : Option NodeId) (name : String)
  | unregister (text name : String)
  | manage (text : String) (object : Option ObjectId)
  | emit (address interface signal : String) (args : List Value) (argsType : Shape)

namespace Action

/-- An action is carried out. A registration or an emission that is refused changes nothing. -/
def carryOut : Action → Station → Station
  | start, s => { s with transport := { s.transport with running := true } }
  | stop, s => { s with transport := { s.transport with running := false } }
  | subscribe, s => { transport := s.transport.subscribe s.joined, joined := s.joined + 1 }
  | close k, s => { s with transport := s.transport.unsubscribe k }
  | look k, s => { s with transport := s.transport.clearInbox k }
  | register isLive text node name, s =>
      match Address.parse text with
      | .error _ => s
      | .ok a =>
          match s.transport.register isLive a node name with
          | .error _ => s
          | .ok l => { s with transport := l }
  | unregister text name, s =>
      match Address.parse text with
      | .error _ => s
      | .ok a => { s with transport := (s.transport.unregister a name).2 }
  | manage text object, s =>
      match Address.parse text with
      | .error _ => s
      | .ok a => { s with transport := s.transport.setManaged a object }
  | emit address interface signal args argsType, s =>
      match s.transport.emit address interface signal args argsType with
      | .error _ => s
      | .ok l => { s with transport := l }

/-- What a listener gets to see by an action: the events that are there when he looks. -/
def seenBy (k : Nat) : Action → Station → List Delivery
  | look j, s => if j = k then s.transport.inbox k else []
  | _, _ => []

/-- **What is sent by an action**: the signal of an emission, if the transport runs and the arguments
can be exported, with the arguments as they are exported. -/
def sent : Action → Station → List Delivery
  | emit address interface signal args argsType, s =>
      if s.transport.running then
        match s.transport.exportValues args with
        | .error _ => []
        | .ok args => [{ address, interface, signal, args, argsType }]
      else []
  | _, _ => []

end Action

/-- The station after a run, the first action in the list carried out first. -/
def afterActions (actions : List Action) (s : Station) : Station :=
  actions.foldl (fun s a => a.carryOut s) s

/-- **What a listener receives in the course of a run**: what he sees when he looks, and what he could
look at in the end. -/
def received (k : Nat) : List Action → Station → List Delivery
  | [], s => s.transport.inbox k
  | a :: actions, s => a.seenBy k s ++ received k actions (a.carryOut s)

/-- **The signals that are sent in the course of a run**, in order. -/
def announced : List Action → Station → List Delivery
  | [], _ => []
  | a :: actions, s => a.sent s ++ announced actions (a.carryOut s)

/-! ## Emissions -/

/-- An emission that goes out is delivered; one that does not changes nothing. -/
theorem carryOut_emit (address interface signal : String) (args : List Value) (argsType : Shape)
    (s : Station) :
    (Action.emit address interface signal args argsType).carryOut s =
      { s with
        transport := ((Action.emit address interface signal args argsType).sent s).foldl deliver
          s.transport } := by
  cases hrunning : s.transport.running with
  | false => simp [Action.carryOut, Action.sent, emit, checkRunning, hrunning]
  | true =>
      cases hargs : s.transport.exportValues args <;>
        simp [Action.carryOut, Action.sent, emit, checkRunning, hrunning, hargs]

/-- Arguments cannot be exported if and only if one of their objects is managed nowhere. -/
theorem exportValues_error_iff {l : Loopback} {args : List Value} :
    (∃ e, l.exportValues args = .error e) ↔
      ∃ o ∈ Value.objectsOfAll args, ∀ a, (a, o) ∉ l.managed := by
  have hok : (∃ ws, l.exportValues args = .ok ws) ↔
      ∀ o ∈ Value.objectsOfAll args, (l.addressOf? o).isSome = true := by
    rw [← Value.exists_exportedAll_iff fun v _ => Value.exists_exported_iff]
    exact exists_congr fun ws => Value.exportedAll_eq_ok_iff
  have hmanaged (o : ObjectId) : (l.addressOf? o).isSome = true ↔ ∃ a, (a, o) ∈ l.managed := by
    simp [addressOf?]
  calc (∃ e, l.exportValues args = .error e)
      ↔ ¬∃ ws, l.exportValues args = .ok ws := by
        cases l.exportValues args <;> simp
    _ ↔ ∃ o ∈ Value.objectsOfAll args, ∀ a, (a, o) ∉ l.managed := by
        simp only [hok, hmanaged, not_forall, not_exists, exists_prop]

/-- **An emission fails** if and only if the transport is stopped or one of the objects in the
arguments is managed nowhere. -/
theorem emit_error_iff {l : Loopback} {address interface signal : String} {args : List Value}
    {argsType : Shape} :
    (∃ e, l.emit address interface signal args argsType = .error e) ↔
      l.running = false ∨ ∃ o ∈ Value.objectsOfAll args, ∀ a, (a, o) ∉ l.managed := by
  rw [← exportValues_error_iff]
  cases hrunning : l.running with
  | false => simp [emit, checkRunning, hrunning]
  | true => cases hargs : l.exportValues args <;> simp [emit, checkRunning, hrunning, hargs]

/-! ## The list of listeners -/

/-- The numbers of all listeners so far are below that of the next one. -/
def Station.Counted (s : Station) : Prop := ∀ x ∈ s.transport.subscribers, x.id < s.joined

/-- **A listener is on the list**: he listens, he stands there once, and no later one gets his number.
`box` is what he has not looked at. -/
structure Listening (k : Nat) (box : List Delivery) (s : Station) : Prop where
  once : s.transport.subscribers.filter (·.id = k) = [{ id := k, inbox := box }]
  below : k < s.joined

/-- Nobody joins, goes, looks or receives anything. -/
structure Station.SameListeners (s s' : Station) : Prop where
  subscribers : s'.transport.subscribers = s.transport.subscribers
  joined : s'.joined = s.joined

theorem subscribers_make {c : Settings} {l : Loopback} (h : Loopback.make c = .ok l) :
    l.subscribers = [] := by
  unfold make at h
  split at h
  · cases h
  · cases h
    rfl

theorem subscribers_register {l l' : Loopback} {isLive : NodeId → Bool} {a : Address}
    {node : Option NodeId} {name : String} (h : l.register isLive a node name = .ok l') :
    l'.subscribers = l.subscribers := by
  unfold register at h
  split at h
  · cases h; rfl
  · split at h
    · split at h
      · cases h
      · cases h; rfl
    · split at h
      · cases h
      · cases h; rfl

theorem sameListeners_register (s : Station) (isLive : NodeId → Bool) (text : String)
    (node : Option NodeId) (name : String) :
    s.SameListeners ((Action.register isLive text node name).carryOut s) := by
  rw [Action.carryOut]
  split
  · exact ⟨rfl, rfl⟩
  · split
    · exact ⟨rfl, rfl⟩
    · next hl => exact ⟨subscribers_register hl, rfl⟩

theorem sameListeners_unregister (s : Station) (text name : String) :
    s.SameListeners ((Action.unregister text name).carryOut s) := by
  rw [Action.carryOut]
  split
  · exact ⟨rfl, rfl⟩
  · refine ⟨?_, rfl⟩
    unfold Loopback.unregister
    split <;> rfl

theorem sameListeners_manage (s : Station) (text : String) (object : Option ObjectId) :
    s.SameListeners ((Action.manage text object).carryOut s) := by
  rw [Action.carryOut]
  split
  · exact ⟨rfl, rfl⟩
  · exact ⟨rfl, rfl⟩

theorem inbox_of_listening {k : Nat} {box : List Delivery} {s : Station}
    (h : Listening k box s) : s.transport.inbox k = box := by
  have hfind : s.transport.subscribers.find? (fun x => decide (x.id = k)) =
      some { id := k, inbox := box } := by
    rw [← List.head?_filter, h.once]
    rfl
  simp only [inbox, hfind]

/-- What is done to every listener in his place, whoever he is, is done to the one. -/
theorem Listening.map {k : Nat} {box box' : List Delivery} {s s' : Station} {f : Subscriber → Subscriber}
    (h : Listening k box s) (hsubscribers : s'.transport.subscribers = s.transport.subscribers.map f)
    (hjoined : s'.joined = s.joined) (hid : ∀ x, (f x).id = x.id)
    (hf : f { id := k, inbox := box } = { id := k, inbox := box' }) : Listening k box' s' where
  once := by
    have hsame : ((fun x : Subscriber => decide (x.id = k)) ∘ f) = fun x => decide (x.id = k) :=
      funext fun x => by simp [hid]
    rw [hsubscribers, List.filter_map, hsame, h.once, List.map_singleton, hf]
  below := hjoined ▸ h.below

theorem Listening.same {k : Nat} {box : List Delivery} {s s' : Station} (h : Listening k box s)
    (hs : s.SameListeners s') : Listening k box s' where
  once := hs.subscribers ▸ h.once
  below := hs.joined ▸ h.below

/-- A listener is handed what is sent, and those who have gone are forgotten. -/
theorem Listening.deliver {k : Nat} {box : List Delivery} {s : Station} (h : Listening k box s)
    (event : Delivery) :
    Listening k (box ++ [event]) { s with transport := s.transport.deliver event } where
  once := by
    have hlisten : (s.transport.subscribers.filter (·.listening)).filter (·.id = k) =
        [{ id := k, inbox := box }] := by
      rw [List.filter_comm, h.once]
      rfl
    have hsame : ((fun x : Subscriber => decide (x.id = k)) ∘ fun x : Subscriber =>
        { x with inbox := x.inbox ++ [event] }) = fun x => decide (x.id = k) := rfl
    rw [Loopback.deliver, List.filter_map, hsame, hlisten]
    rfl
  below := h.below

theorem Listening.foldl_deliver {k : Nat} {s : Station} (events : List Delivery) :
    ∀ {box : List Delivery}, Listening k box s →
      Listening k (box ++ events) { s with transport := events.foldl Loopback.deliver s.transport } := by
  induction events generalizing s with
  | nil =>
      intro box h
      simpa using h
  | cons event events ih =>
      intro box h
      simpa using ih (h.deliver event)

/-! ## Numbers -/

theorem Station.Counted.of_ids {s s' : Station} (h : s.Counted) (hjoined : s.joined ≤ s'.joined)
    (hids : ∀ x ∈ s'.transport.subscribers, ∃ y ∈ s.transport.subscribers, y.id = x.id) :
    s'.Counted := by
  intro x hx
  obtain ⟨y, hy, hyx⟩ := hids x hx
  exact hyx ▸ Nat.lt_of_lt_of_le (h y hy) hjoined

theorem Station.Counted.same {s s' : Station} (h : s.Counted) (hs : s.SameListeners s') :
    s'.Counted :=
  h.of_ids (Nat.le_of_eq hs.joined.symm) fun x hx => ⟨x, hs.subscribers ▸ hx, rfl⟩

theorem Station.Counted.foldl_deliver {s : Station} (events : List Delivery) (h : s.Counted) :
    Station.Counted { s with transport := events.foldl Loopback.deliver s.transport } := by
  induction events generalizing s with
  | nil => exact h
  | cons event events ih =>
      refine ih (s := { s with transport := s.transport.deliver event }) (h.of_ids (Nat.le_refl _) ?_)
      intro x hx
      obtain ⟨y, hy, rfl⟩ := List.mem_map.1 hx
      exact ⟨y, List.mem_of_mem_filter hy, rfl⟩

/-- **No number is given twice**: one action. -/
theorem Station.Counted.carryOut {s : Station} (h : s.Counted) (a : Action) :
    (a.carryOut s).Counted := by
  cases a with
  | start => exact h
  | stop => exact h
  | subscribe =>
      intro x hx
      rcases List.mem_append.1 hx with hx | hx
      · exact Nat.lt_succ_of_lt (h x hx)
      · obtain rfl := List.mem_singleton.1 hx
        exact Nat.lt_succ_self _
  | close k =>
      refine h.of_ids (Nat.le_refl _) fun x hx => ?_
      obtain ⟨y, hy, rfl⟩ := List.mem_map.1 hx
      exact ⟨y, hy, by split <;> rfl⟩
  | look k =>
      refine h.of_ids (Nat.le_refl _) fun x hx => ?_
      obtain ⟨y, hy, rfl⟩ := List.mem_map.1 hx
      exact ⟨y, hy, by split <;> rfl⟩
  | register isLive text node name => exact h.same (sameListeners_register ..)
  | unregister text name => exact h.same (sameListeners_unregister ..)
  | manage text object => exact h.same (sameListeners_manage ..)
  | emit address interface signal args argsType =>
      rw [carryOut_emit]
      exact h.foldl_deliver _

theorem counted_afterActions (actions : List Action) {s : Station} (h : s.Counted) :
    (afterActions actions s).Counted := by
  induction actions generalizing s with
  | nil => exact h
  | cons a actions ih => exact ih (h.carryOut a)

/-- The next one to join is on the list from then on, with nothing to look at. -/
theorem Station.Counted.listening {s : Station} (h : s.Counted) :
    Listening s.joined [] (Action.subscribe.carryOut s) where
  once := by
    have hnone : s.transport.subscribers.filter (·.id = s.joined) = [] := by
      refine List.filter_eq_nil_iff.2 fun x hx => ?_
      simpa using Nat.ne_of_lt (h x hx)
    simp [Action.carryOut, subscribe, List.filter_append, hnone]
  below := Nat.lt_succ_self _

/-! ## A run -/

/-- **One action.** What a listener sees by it, and has not looked at after it, is what he had not
looked at before, and then what is sent. -/
theorem Listening.carryOut {k : Nat} {box : List Delivery} {s : Station} (h : Listening k box s)
    {a : Action} (ha : a ≠ .close k) :
    ∃ box', a.seenBy k s ++ box' = box ++ a.sent s ∧ Listening k box' (a.carryOut s) := by
  cases a with
  | start => exact ⟨box, by simp [Action.seenBy, Action.sent], h.same ⟨rfl, rfl⟩⟩
  | stop => exact ⟨box, by simp [Action.seenBy, Action.sent], h.same ⟨rfl, rfl⟩⟩
  | subscribe =>
      refine ⟨box, by simp [Action.seenBy, Action.sent], ?_, Nat.lt_succ_of_lt h.below⟩
      have hne : s.joined ≠ k := Nat.ne_of_gt h.below
      simp [Action.carryOut, subscribe, List.filter_append, h.once, hne]
  | close j =>
      have hne : k ≠ j := fun hkj => ha (hkj ▸ rfl)
      refine ⟨box, by simp [Action.seenBy, Action.sent], h.map rfl rfl (fun x => ?_) (if_neg hne)⟩
      split <;> rfl
  | look j =>
      have hmap : ∀ {box'}, (if k = j then ({ id := k, inbox := [] } : Subscriber)
            else { id := k, inbox := box }) = { id := k, inbox := box' } →
          Listening k box' ((Action.look j).carryOut s) := by
        intro box' hf
        refine h.map rfl rfl (fun x => ?_) hf
        split <;> rfl
      by_cases hjk : j = k
      · refine ⟨[], ?_, hmap (if_pos hjk.symm)⟩
        simp [Action.seenBy, Action.sent, hjk, inbox_of_listening h]
      · refine ⟨box, ?_, hmap (if_neg (Ne.symm hjk))⟩
        simp [Action.seenBy, Action.sent, hjk]
  | register isLive text node name =>
      exact ⟨box, by simp [Action.seenBy, Action.sent], h.same (sameListeners_register ..)⟩
  | unregister text name =>
      exact ⟨box, by simp [Action.seenBy, Action.sent], h.same (sameListeners_unregister ..)⟩
  | manage text object =>
      exact ⟨box, by simp [Action.seenBy, Action.sent], h.same (sameListeners_manage ..)⟩
  | emit address interface signal args argsType =>
      refine ⟨box ++ (Action.emit address interface signal args argsType).sent s, rfl, ?_⟩
      rw [carryOut_emit]
      exact h.foldl_deliver _

/-- **Along a run** a listener receives what he had not looked at, and then what is sent. -/
theorem Listening.received_eq {k : Nat} {actions : List Action} (hkept : .close k ∉ actions) :
    ∀ {box : List Delivery} {s : Station}, Listening k box s →
      received k actions s = box ++ announced actions s := by
  induction actions with
  | nil =>
      intro box s h
      simp [received, announced, inbox_of_listening h]
  | cons a actions ih =>
      intro box s h
      rw [List.mem_cons, not_or] at hkept
      obtain ⟨ha, hactions⟩ := hkept
      obtain ⟨box', hbox', h'⟩ := h.carryOut (Ne.symm ha)
      calc received k (a :: actions) s
          = a.seenBy k s ++ (box' ++ announced actions (a.carryOut s)) := by
            rw [received, ih hactions h']
        _ = box ++ announced (a :: actions) s := by
            rw [← List.append_assoc, hbox', List.append_assoc, announced]

/-- **Listeners see every signal once and in order.** After any run of a transport, let one more
listener join; whatever is done from then on, as long as he does not go away himself, he receives
exactly the signals that are sent since, in order. Which are sent was decided at each emission by the
transport alone: it fails if and only if the transport is stopped or an object in the arguments is
managed nowhere, and then it leaves everything as it is, so that it reaches nobody. -/
theorem received_eq_announced {c : Settings} {l : Loopback} (hmake : Loopback.make c = .ok l)
    (before after : List Action) :
    let s := afterActions before { transport := l }
    (.close s.joined ∉ after →
      received s.joined after (Action.subscribe.carryOut s) =
        announced after (Action.subscribe.carryOut s)) ∧
    ∀ (address interface signal : String) (args : List Value) (argsType : Shape),
      ((∃ e, s.transport.emit address interface signal args argsType = .error e) ↔
        s.transport.running = false ∨
          ∃ o ∈ Value.objectsOfAll args, ∀ a, (a, o) ∉ s.transport.managed) ∧
      ((∃ e, s.transport.emit address interface signal args argsType = .error e) →
        (Action.emit address interface signal args argsType).carryOut s = s) := by
  intro s
  have hempty : Station.Counted { transport := l } := by
    intro x hx
    rw [subscribers_make hmake] at hx
    cases hx
  have hs : s.Counted := counted_afterActions before hempty
  refine ⟨fun hkept => ?_, fun address interface signal args argsType => ⟨emit_error_iff, ?_⟩⟩
  · simpa using hs.listening.received_eq hkept
  · rintro ⟨e, he⟩
    simp only [Action.carryOut, he]

/-- Two listeners have joined before, and one of them has gone. -/
def earlyRun : List Action := [.subscribe, .start, .subscribe, .close 0]

/-- A signal whose argument is an object. -/
def ping (signal : String) (o : ObjectId) : Action :=
  .emit "/a" "Sensor" signal [.scalar .object o] (.tuple [.scalar .object])

/-- Signals are sent and refused, while others go and join, the transport is stopped and started, and
an object gets and loses its address. -/
def lateRun : List Action :=
  [.manage "/a" (some 7), ping "first" 7, .look 2, .close 1, .subscribe, ping "second" 7, .stop,
    ping "stopped" 7, .start, .manage "//b/" (some 7), .manage "/a" none, ping "third" 7, .look 3,
    .manage "/b" none, ping "unmanaged" 7,
    .emit "/a" "Sensor" "fourth" [] (.tuple []), .close 3, .look 2]

theorem received_eq_announced_late :
    Loopback.make {} = .ok { name := "local", root := "/" } ∧
    let s := afterActions earlyRun { transport := { name := "local", root := "/" } }
    s.joined = 2 ∧ .close 2 ∉ lateRun ∧
    (received 2 lateRun (Action.subscribe.carryOut s)).map (fun e => (e.signal, e.args)) =
      [("first", [.scalar .path "/a"]), ("second", [.scalar .path "/a"]),
        ("third", [.scalar .path "/b"]), ("fourth", [])] := by
  have hmake : Loopback.make {} = .ok { name := "local", root := "/" } := rfl
  have hkept : Action.close 2 ∉ lateRun := by simp [lateRun, ping]
  refine ⟨hmake, rfl, hkept, ?_⟩
  have hreceived := (received_eq_announced hmake earlyRun lateRun).1 hkept
  have hjoined : (afterActions earlyRun { transport := { name := "local", root := "/" } }).joined = 2 :=
    rfl
  rw [hjoined] at hreceived
  rw [hreceived]
  rfl

end ObjectBus.Loopback
