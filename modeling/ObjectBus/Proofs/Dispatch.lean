import ObjectBus.Bus.Remote
import ObjectBus.Proofs.Native
import ObjectBus.Proofs.Registry
import ObjectBus.Proofs.Value.Import

/-!
# Calls from afar

A call from afar passes through stages, each of which can refuse it: the transport, the registry, the
table of the node, the interface value, its functions, the import of the arguments, their decoding and
the target of a method. `Bus.Admits` says what it takes to pass them all, and what the callable behind
the function is then given.

The callable is run once if the call is admitted, and not at all otherwise. This is told by what comes
out, for every choice of callables (`Bus.call_dispatched`): an admitted call leaves the bus as one run
of the callable leaves it, and its answer is made from the result of that run (`Callable.Answers`); any
other call leaves the bus as it was, whatever the callables would do to it, and answers a fault.
-/

set_option autoImplicit false

namespace ObjectBus

theorem Interface.function_eq_ok_iff {x : Interface} {name : String} {f : Function} :
    x.function name = .ok f ↔ Entries.get? name x.functions = some f := by
  unfold Interface.function
  cases Entries.get? name x.functions <;> simp

namespace Loopback

theorem checkRunning_eq_ok_iff {l : Loopback} : l.checkRunning = .ok () ↔ l.running = true := by
  unfold checkRunning
  cases l.running <;> simp

/-- **A live object is managed at an address**, which is given as text. -/
def FindsObject (l : Loopback) (isLive : ObjectId → Bool) (address : String) (o : ObjectId) : Prop :=
  ∃ a, Address.parse address = .ok a ∧ Entries.get? a l.managed = some o ∧ isLive o = true

theorem managedAt?_eq_some_iff {l : Loopback} {isLive : ObjectId → Bool} {address : String}
    {o : ObjectId} : l.managedAt? isLive address = some o ↔ l.FindsObject isLive address o := by
  unfold managedAt? FindsObject
  cases Address.parse address with
  | error e => simp
  | ok a => simp [Option.filter_eq_some_iff]

/-- An object has an address if and only if it is managed. -/
theorem addressOf?_eq_none_iff {l : Loopback} {o : ObjectId} :
    l.addressOf? o = none ↔ ∀ e ∈ l.managed, e.2 ≠ o := by
  simp [addressOf?, List.find?_eq_none]

/-- A value is imported if and only if every path that stands for an object leads to one. -/
theorem exists_importValue_iff {l : Loopback} {isLive : ObjectId → Bool} {v : Value} {t : Shape} :
    (∃ w, l.importValue isLive v t = .ok w) ↔
      ∀ p, v.Asks t p → ∃ o, l.FindsObject isLive p o := by
  unfold importValue
  rw [Value.exists_imported_iff]
  simp only [Option.isSome_iff_exists, managedAt?_eq_some_iff]

/-- Arguments are imported if and only if every path that stands for an object leads to one. -/
theorem exists_importValues_iff {l : Loopback} {isLive : ObjectId → Bool} {args : List Value}
    {shapes : List Shape} : (∃ values, l.importValues isLive args shapes = .ok values) ↔
      ∀ e ∈ args.zip shapes, ∀ p, e.1.Asks e.2 p → ∃ o, l.FindsObject isLive p o := by
  unfold importValues
  rw [Value.exists_importedFields_iff]
  simp only [Option.isSome_iff_exists, managedAt?_eq_some_iff]

/-- Exporting results gives the exported values, or complains of an object that is not managed. -/
theorem exportValues_cases (l : Loopback) (vs : List Value) :
    (∃ ws, l.exportValues vs = .ok ws) ∨
      l.exportValues vs = .error (.failed "object is not managed by any node") ∧
        ∃ o ∈ Value.objectsOfAll vs, ∀ e ∈ l.managed, e.2 ≠ o := by
  unfold exportValues
  cases hws : Value.exportedAll l.addressOf? vs with
  | ok ws => exact Or.inl ⟨ws, rfl⟩
  | error fault =>
      have hfault : fault = .failed "object is not managed by any node" :=
        Value.fault_of_exportedAll hws
      refine Or.inr ⟨by rw [hfault], ?_⟩
      by_contra hall
      -- if all of them were managed, all of them would have an address
      have haddress : ∀ o ∈ Value.objectsOfAll vs, (l.addressOf? o).isSome = true := by
        intro o ho
        by_contra hnone
        rw [Option.not_isSome_iff_eq_none, addressOf?_eq_none_iff] at hnone
        exact hall ⟨o, ho, hnone⟩
      obtain ⟨ws, hok⟩ :=
        (Value.exists_exportedAll_iff fun _ _ => Value.exists_exported_iff).2 haddress
      rw [Value.exportedAll_eq_ok_iff.2 hok] at hws
      cases hws

end Loopback

namespace Callable

/-- **What a caller is answered** when the callable was run: the exported results; or that it failed,
because the callable says so or because a result holds an object that is not managed. A panic unwinds
past the transport. -/
inductive Answers (c : Callable) (l : Loopback) :
    Except (Failure String) (Native.Pack c.returns) → Except (Failure Fault) (List Value) → Prop
  | results {ys : Native.Pack c.returns} {ws : List Value}
      (h : l.exportValues (Native.encodePack c.returns ys) = .ok ws) : Answers c l (.ok ys) (.ok ws)
  | unmanaged {ys : Native.Pack c.returns} {o : ObjectId}
      (ho : o ∈ Value.objectsOfAll (Native.encodePack c.returns ys))
      (h : ∀ e ∈ l.managed, e.2 ≠ o) :
      Answers c l (.ok ys) (.error (.error (.failed "object is not managed by any node")))
  | failed (text : String) :
      Answers c l (.error (.error text)) (.error (.error (.failed ("callable failed: " ++ text))))
  | unwound (text : String) : Answers c l (.error (.panic text)) (.error (.panic text))

variable {c : Callable}

/-- Values that do not decode do not reach the callable. -/
theorem invoke_of_misfit {values : List Value} {b : Bus}
    (h : ¬List.Forall₂ (fun v t => v.matches? t = true) values c.argTypes) :
    ∃ e, c.invoke values b = (.error (.error e), b) := by
  unfold invoke invokeTyped
  cases hxs : Native.decodePack c.args values with
  | error e => exact ⟨e.toBusError, rfl⟩
  | ok xs => exact absurd (Native.exists_decodePack_iff.1 ⟨xs, hxs⟩) h

/-- Without its target the callable is not run. -/
theorem invoke_of_gone {values : List Value} {b : Bus} (h : c.subject? b = none) :
    ∃ e, c.invoke values b = (.error (.error e), b) := by
  unfold invoke invokeTyped
  cases Native.decodePack c.args values with
  | error e => exact ⟨e.toBusError, rfl⟩
  | ok xs => exact ⟨.nullTarget "method target has been dropped", by rw [h]⟩

/-- **Values that decode reach the callable**, which is run once. -/
theorem invoke_of_fit {values : List Value} {b : Bus} {xs : Native.Pack c.args} {s : c.Subject}
    (hxs : Native.decodePack c.args values = .ok xs) (hs : c.subject? b = some s) :
    c.invoke values b =
      (match (c.run s xs b).1 with
        | .error e => .error e.ofCallable
        | .ok ys => .ok (Native.encodePack c.returns ys), (c.run s xs b).2) := by
  unfold invoke invokeTyped
  rw [hxs, hs]
  dsimp only
  split
  · next e b' he => rw [he]
  · next ys b' he => rw [he]

end Callable

namespace Bus

variable {b : Bus} {l : Loopback} {address interface : String}

/-- **Where a request arrives**: the transport runs, the name is registered at the address for a live
node, and a live value of this name is attached to the node. -/
theorem resolve_eq_ok_iff {i : InterfaceId} {x : Interface} :
    b.resolve l address interface = .ok (i, x) ↔
      l.running = true ∧ ∃ a n node, Address.parse address = .ok a ∧
        l.Registers a interface (some n) ∧ b.isLiveNode n = true ∧ b.node? n = some node ∧
        Entries.get? interface node.interfaces = some i ∧ b.isLiveInterface i = true ∧
        ∃ v, b.interface? i = some v ∧ v.interface = x := by
  constructor
  · intro h
    unfold resolve at h
    split at h
    · cases h
    · next hrun =>
        split at h
        · cases h
        · next o ho =>
            split at h
            · cases h
            · next node hnode =>
                split at h
                · cases h
                · next j hj =>
                    split at h
                    · cases h
                    · next v hv =>
                        cases h
                        obtain ⟨n, hn, hx⟩ := Option.bind_eq_some_iff.1 hnode
                        obtain ⟨rfl, hlive⟩ := Option.filter_eq_some_iff.1 hn
                        obtain ⟨hi, hilive⟩ := Option.filter_eq_some_iff.1 hj
                        obtain ⟨a, ha, hr⟩ := Loopback.resolve_eq_ok_iff.1 ho
                        exact ⟨Loopback.checkRunning_eq_ok_iff.1 hrun, a, n, node, ha, hr, hlive,
                          hx, hi, hilive, v, hv, rfl⟩
  · rintro ⟨hrun, a, n, node, ha, hr, hlive, hnode, hi, hilive, v, hv, rfl⟩
    have hcheck : l.checkRunning = .ok () := Loopback.checkRunning_eq_ok_iff.2 hrun
    have hplace : l.resolve address interface = .ok (some n) :=
      Loopback.resolve_eq_ok_iff.2 ⟨a, ha, hr⟩
    have hn : (some n).filter b.isLiveNode = some n := Option.filter_eq_some_iff.2 ⟨rfl, hlive⟩
    have hj : (Entries.get? interface node.interfaces).filter b.isLiveInterface = some i :=
      Option.filter_eq_some_iff.2 ⟨hi, hilive⟩
    simp only [resolve, hcheck, hplace, hn, Option.bind_some, hnode, hj, hv]

/-- A handle that is taken to a live interface value and let go again leaves no trace. -/
theorem releaseInterface_holdInterface (h : Host) {i : InterfaceId}
    (hlive : b.isLiveInterface i = true) : (b.holdInterface i).releaseInterface h i = b := by
  have hback : (b.holdInterface i).adjustInterface i
      (fun x => { x with handles := x.handles - 1 }) = b := by
    show { b with interfaces := Entries.adjust i _ (Entries.adjust i _ b.interfaces) } = b
    rw [Entries.adjust_adjust, Entries.adjust_eq_self]
    intro x _
    rfl
  rw [releaseInterface, hback, if_pos hlive]

/-- What does not reach the callable leaves no trace: the interface value was held for nothing. -/
theorem serve_of_invoke_error (h : Host) (t : TransportId) {c : Callable} {i : InterfaceId}
    {values : List Value} (hlive : b.isLiveInterface i = true)
    (herror : ∃ e, c.invoke values (b.holdInterface i) = (.error (.error e), b.holdInterface i)) :
    ∃ fault, b.serve h t c i values = (.error (.error fault), b) := by
  obtain ⟨e, he⟩ := herror
  refine ⟨e.toFault, ?_⟩
  simp only [serve, he, releaseInterface_holdInterface h hlive]
  rfl

/-- **What reaches the callable** is answered from its result, and leaves the bus as the callable
does, but for the handle to the interface value. -/
theorem serve_of_fit (h : Host) (t : TransportId) {c : Callable} (i : InterfaceId)
    {values : List Value} {xs : Native.Pack c.args} {s : c.Subject}
    (hxs : Native.decodePack c.args values = .ok xs) (hs : c.subject? (b.holdInterface i) = some s)
    {result : Except (Failure String) (Native.Pack c.returns)} {b' : Bus}
    (hrun : c.run s xs (b.holdInterface i) = (result, b')) :
    (b.serve h t c i values).2 = b'.releaseInterface h i ∧
      ∀ l, b'.loopback? t = some l → c.Answers l result (b.serve h t c i values).1 := by
  have hinvoke := Callable.invoke_of_fit hxs hs
  rw [hrun] at hinvoke
  cases result with
  | error failure =>
      have hserve : b.serve h t c i values =
          (.error failure.ofCallable.toRemote, b'.releaseInterface h i) := by
        simp only [serve, hinvoke]
      rw [hserve]
      refine ⟨rfl, fun l hl => ?_⟩
      cases failure with
      | error text => exact .failed text
      | panic text => exact .unwound text
  | ok ys =>
      have hserve : b.serve h t c i values =
          ((b'.exportResults t (Native.encodePack c.returns ys)).mapError .error,
            b'.releaseInterface h i) := by
        simp only [serve, hinvoke]
      rw [hserve]
      refine ⟨rfl, fun l hl => ?_⟩
      simp only [exportResults, hl]
      rcases l.exportValues_cases (Native.encodePack c.returns ys) with
        ⟨ws, hws⟩ | ⟨hfault, o, ho, hnone⟩
      · rw [hws]
        exact .results hws
      · rw [hfault]
        exact .unmanaged ho hnone

/-- **What it takes for a call to be admitted**, and what the callable is then run with: the interface
value `i`, the function `f`, the imported arguments `values`, and what `f` is a method of. -/
structure Admits (b : Bus) (callable : Function → Callable) (l : Loopback)
    (address interface name : String) (args : List Value) (i : InterfaceId) (f : Function)
    (values : List Value) (s : (callable f).Subject) : Prop where
  /-- The transport runs. -/
  running : l.running = true
  /-- The name is registered at the address for a live node, and `i` is attached to it by the name. -/
  attached : ∃ a n node, Address.parse address = .ok a ∧ l.Registers a interface (some n) ∧
    b.isLiveNode n = true ∧ b.node? n = some node ∧ Entries.get? interface node.interfaces = some i
  live : b.isLiveInterface i = true
  function : ∃ x, b.interface? i = some x ∧ Entries.get? name x.interface.functions = some f
  /-- Every path that stands where the shape of its argument has an object leads to a live one. -/
  resolved : ∀ e ∈ args.zip (callable f).argTypes, ∀ p, e.1.Asks e.2 p →
    ∃ o, l.FindsObject b.isLiveObject p o
  imported : l.importValues b.isLiveObject args (callable f).argTypes = .ok values
  /-- The imported arguments have the declared shapes, and are as many. -/
  fits : List.Forall₂ (fun v t => v.matches? t = true) values (callable f).argTypes
  /-- What the function is a method of is there when the call has got that far. -/
  subject : (callable f).subject? (b.holdInterface i) = some s

/-- Holding an interface value does nothing to the targets of methods: a target is there when the call
has got to it if and only if it was there before. -/
theorem subject?_callable_holdInterface (h : Host) (f : Function) (i : InterfaceId) (b : Bus) :
    (f.callable h).subject? (b.holdInterface i) = (f.callable h).subject? b := by
  show f.routine.subject? (b.holdInterface i) = f.routine.subject? b
  cases f.routine <;> rfl

section Dispatch

variable {callable : Function → Callable} {name : String} {args : List Value} {i : InterfaceId}
  {f : Function} {values : List Value} {s : (callable f).Subject}

/-- An admitted call is served, with its imported arguments. -/
theorem Admits.remoteCallOf_eq
    (hadmits : b.Admits callable l address interface name args i f values s) (h : Host)
    (t : TransportId) :
    b.remoteCallOf callable h t l address interface name args =
      b.serve h t (callable f) i values := by
  obtain ⟨a, n, node, ha, hr, hlive, hnode, hi⟩ := hadmits.attached
  obtain ⟨x, hx, hf⟩ := hadmits.function
  have hresolve : b.resolve l address interface = .ok (i, x.interface) :=
    resolve_eq_ok_iff.2
      ⟨hadmits.running, a, n, node, ha, hr, hlive, hnode, hi, hadmits.live, x, hx, rfl⟩
  simp only [remoteCallOf, hresolve, Interface.function_eq_ok_iff.2 hf, hadmits.imported]

/-- **A call that is not admitted** is refused at some stage, and leaves the bus as it was. -/
theorem remoteCallOf_refused
    (hnone : ∀ i f values s, ¬b.Admits callable l address interface name args i f values s)
    (h : Host) (t : TransportId) :
    ∃ fault, b.remoteCallOf callable h t l address interface name args =
      (.error (.error fault), b) := by
  unfold remoteCallOf
  cases hresolve : b.resolve l address interface with
  | error fault => exact ⟨fault, rfl⟩
  | ok e =>
      obtain ⟨i, x⟩ := e
      obtain ⟨hrun, a, n, node, ha, hr, hlive, hnode, hi, hilive, v, hv, rfl⟩ :=
        resolve_eq_ok_iff.1 hresolve
      dsimp only
      cases hfunction : v.interface.function name with
      | error e => exact ⟨e.toFault, rfl⟩
      | ok f =>
          dsimp only
          cases hvalues : l.importValues b.isLiveObject args (callable f).argTypes with
          | error fault => exact ⟨fault, rfl⟩
          | ok values =>
              dsimp only
              -- all stages before the callable are passed, so one of the last two is not
              by_cases hfits :
                  List.Forall₂ (fun v t => v.matches? t = true) values (callable f).argTypes
              · cases hs : (callable f).subject? (b.holdInterface i) with
                | none => exact serve_of_invoke_error h t hilive (Callable.invoke_of_gone hs)
                | some s =>
                    exact absurd
                      { running := hrun
                        attached := ⟨a, n, node, ha, hr, hlive, hnode, hi⟩
                        live := hilive
                        function := ⟨v, hv, Interface.function_eq_ok_iff.1 hfunction⟩
                        resolved := Loopback.exists_importValues_iff.1 ⟨values, hvalues⟩
                        imported := hvalues
                        fits := hfits
                        subject := hs }
                      (hnone i f values s)
              · exact serve_of_invoke_error h t hilive (Callable.invoke_of_misfit hfits)

/-- **Calls from afar are dispatched exactly.** Whatever the callables behind the functions are: an
admitted call runs the one of its function once, on its decoded arguments, and the caller is answered
from the result of that run; a call that is not admitted runs none, and the caller is answered a fault
and the whole bus is as it was. `Bus.remoteCall` is the case in which the callables are the routines. -/
theorem call_dispatched (callable : Function → Callable) (h : Host) (t : TransportId) (l : Loopback)
    (address interface name : String) (args : List Value) (b : Bus) :
    (∀ i f values s, b.Admits callable l address interface name args i f values s →
      ∃ xs result b', Native.decodePack (callable f).args values = .ok xs ∧
        (callable f).run s xs (b.holdInterface i) = (result, b') ∧
        (b.remoteCallOf callable h t l address interface name args).2 = b'.releaseInterface h i ∧
        ∀ l', b'.loopback? t = some l' → (callable f).Answers l' result
          (b.remoteCallOf callable h t l address interface name args).1) ∧
    ((∀ i f values s, ¬b.Admits callable l address interface name args i f values s) →
      ∃ fault, b.remoteCallOf callable h t l address interface name args =
        (.error (.error fault), b)) := by
  refine ⟨fun i f values s hadmits => ?_, fun hnone => remoteCallOf_refused hnone h t⟩
  rw [hadmits.remoteCallOf_eq h t]
  obtain ⟨xs, hxs⟩ := Native.exists_decodePack_iff.2 hadmits.fits
  exact ⟨xs, _, _, hxs, rfl, serve_of_fit h t i hxs hadmits.subject rfl⟩

end Dispatch

/-! ## A call with an object in its argument -/

/-- A function that takes a list of objects and returns their titles. -/
def titles : Function := { argNames := ["objects"], returnNames := ["titles"], routine := .stock .titles }

/-- A transport with one address, where an interface is registered and an object is managed. -/
def lampTransport : Loopback where
  name := "t"
  root := "/"
  running := true
  registry := Trie.empty.put ⟨["r"]⟩ { node := some 0, interfaces := [("I", ())] }
  managed := [(⟨["r"]⟩, 9)]

/-- A root node that manages the object and has the interface. -/
def lampNode : Node where
  name := "r"
  parent := none
  children := []
  servers := [3]
  interfaces := [("I", 4)]
  managing := some 9
  handles := 1

/-- The interface value of that node. -/
def lampInstance : Instance where
  interface := { name := "I", functions := [("titles", titles)] }
  owner := some 0
  isLoose := false

/-- A bus on which the node offers the function through the transport. -/
def lampBus : Bus where
  forest := { next := 1, nodes := [(0, lampNode)] }
  interfaces := [(4, lampInstance)]
  transports := [(3, { transport := .loopback lampTransport })]
  objects := [(9, { label := "lamp" })]
  next := 10
  desk := { labels := [("lamp", 9)] }

/-- No object is managed at the path in the list, so the call is not admitted, whatever it is to be
admitted with. -/
theorem lampBus_not_admits (i : InterfaceId) (f : Function) (values : List Value)
    (s : (f.callable .inert).Subject) :
    ¬lampBus.Admits (Function.callable .inert) lampTransport "/r" "I" "titles"
      [.vector [.scalar .path "/s/"]] i f values s := by
  intro hadmits
  -- the address leads to the node, the node to the interface value, and that one to the function
  obtain ⟨a, n, node, ha, ⟨e, he, hn, -⟩, -, hnode, hi⟩ := hadmits.attached
  obtain ⟨x, hx, hf⟩ := hadmits.function
  cases ha
  cases he
  cases hn
  cases hnode
  cases hi
  cases hx
  cases hf
  obtain ⟨o, b, hb, hmanaged, -⟩ := hadmits.resolved _ List.mem_cons_self "/s/"
    (.item List.mem_cons_self (.path "/s/"))
  cases hb
  cases hmanaged

/-- One path leads to the object, so the call is admitted and answered; the other one leads nowhere, so
the call is refused. -/
theorem call_dispatched_to_lamp :
    let args : List Value := [.vector [.scalar .path "/r/"]]
    lampBus.Admits (Function.callable .inert) lampTransport "/r" "I" "titles" args 4 titles
        [.vector [.scalar .object 9]] () ∧
      (lampBus.remoteCall .inert 3 lampTransport "/r" "I" "titles" args).1 =
        .ok [.vector [.scalar .string "title of lamp"]] ∧
      ∃ fault, lampBus.remoteCall .inert 3 lampTransport "/r" "I" "titles"
        [.vector [.scalar .path "/s/"]] = (.error (.error fault), lampBus) := by
  intro args
  have himported : lampTransport.importValues lampBus.isLiveObject args
      (titles.callable .inert).argTypes = .ok [.vector [.scalar .object 9]] := rfl
  have hadmits : lampBus.Admits (Function.callable .inert) lampTransport "/r" "I" "titles" args 4
      titles [.vector [.scalar .object 9]] () :=
    { running := rfl
      attached := ⟨⟨["r"]⟩, 0, _, rfl, ⟨_, rfl, rfl, rfl⟩, rfl, rfl, rfl⟩
      live := rfl
      function := ⟨_, rfl, rfl⟩
      resolved := Loopback.exists_importValues_iff.1 ⟨_, himported⟩
      imported := himported
      fits := .cons rfl .nil
      subject := subject?_callable_holdInterface .inert titles 4 lampBus }
  obtain ⟨xs, result, b', hxs, hrun, -, hanswer⟩ :=
    (call_dispatched (Function.callable .inert) .inert 3 lampTransport "/r" "I" "titles" args
      lampBus).1 _ _ _ _ hadmits
  refine ⟨hadmits, ?_, (call_dispatched (Function.callable .inert) .inert 3 lampTransport "/r" "I"
    "titles" [.vector [.scalar .path "/s/"]] lampBus).2 lampBus_not_admits⟩
  -- the arguments, the result and the bus after the run are known
  have hdecode : Native.decodePack (titles.callable .inert).args [.vector [.scalar .object 9]] =
      .ok ([9], ()) := rfl
  rw [hdecode] at hxs
  cases hxs
  have hresult : (titles.callable .inert).run () ([9], ()) (lampBus.holdInterface 4) =
      (.ok (["title of lamp"], ()), lampBus.holdInterface 4) := rfl
  rw [hresult] at hrun
  cases hrun
  have hanswered := hanswer lampTransport rfl
  show (lampBus.remoteCallOf (Function.callable .inert) .inert 3 lampTransport "/r" "I" "titles"
    args).1 = _
  generalize (lampBus.remoteCallOf (Function.callable .inert) .inert 3 lampTransport "/r" "I"
    "titles" args).1 = answer at hanswered
  cases hanswered with
  | results h => exact congrArg Except.ok (Except.ok.inj (h.symm.trans rfl))
  | unmanaged ho _ => cases ho

end Bus

end ObjectBus
