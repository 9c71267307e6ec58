import ObjectBus.Bus.Calls
import ObjectBus.Proofs.Address
import ObjectBus.Proofs.Registry

/-!
# Registering and dropping, call by call

A registration is made in steps. An address that is free gets an occupant without names, an occupant
that gives way is cleared, and only then the name is entered, or not: a call can fail when some of this
has been done (`Loopback.registerInSteps`). It leaves nothing behind all the same. An occupant that was
made or cleared for the call has no names, so the name can be entered; and a call fails only where the
occupant has names and stays. What this rests on is that no occupant is without names beforehand, which
dropping takes care of: with its last name the occupant goes (`Loopback.Orderly`).

That every call keeps this, and registers under the root of the transport only, is the step
(`Loopback.KeptUnder.call`); the rest is induction on the calls.
-/

set_option autoImplicit false

namespace ObjectBus

namespace Loopback

/-! ## One call -/

/-- Writes down who occupies an address. -/
def setOccupant (l : Loopback) (a : Address) (r : Occupant) : Loopback :=
  { l with registry := l.registry.put a r }

/-- **Registers a name in steps.** The state is told in any case, because a call that fails may have
changed it. -/
def registerInSteps (l : Loopback) (isLive : NodeId → Bool) (a : Address) (node : Option NodeId)
    (name : String) : Except BusError Unit × Loopback :=
  let (r, registry) := l.registry.getOrPut a { node, interfaces := [] }
  let l := { l with registry }
  if r.node ≠ node ∧ (r.node.any isLive && !r.interfaces.isEmpty) = true then
    (.error (.duplicate (a.render ++ " is in use by another node")), l)
  else
    -- another node's occupant is taken over and cleared
    let r := if r.node = node then r else { node, interfaces := [] }
    let l := l.setOccupant a r
    if Members.has name r.interfaces then
      (.error (.duplicate (name ++ " already registered at " ++ a.render)), l)
    else (.ok (), l.setOccupant a { r with interfaces := Members.add name r.interfaces })

/-- **A node registers a name**: at the address that the root and the path of the node make. -/
def enter (l : Loopback) (isLive : NodeId → Bool) (path : String) (node : Option NodeId)
    (name : String) : Except BusError Unit × Loopback :=
  match Address.parse (Address.join l.root path) with
  | .error e => (.error (.transport e.message), l)
  | .ok a => l.registerInSteps isLive a node name

/-- **A name is dropped** at an address that is given as text. -/
def leave (l : Loopback) (address name : String) : Bool × Loopback :=
  match Address.parse address with
  | .error _ => (false, l)
  | .ok a => l.unregister a name

/-- The outcome of registering at once. -/
def afterRegister (l : Loopback) : Except BusError Loopback → Except BusError Unit × Loopback
  | .error e => (.error e, l)
  | .ok l' => (.ok (), l')

variable {l : Loopback}

/-- **Registering in steps is registering at once**, on an orderly transport. -/
theorem registerInSteps_eq (hl : l.Orderly) (isLive : NodeId → Bool) (a : Address)
    (node : Option NodeId) (name : String) :
    l.registerInSteps isLive a node name = l.afterRegister (l.register isLive a node name) := by
  unfold registerInSteps register
  cases hr : l.registry.get? a with
  | none =>
      have hmade : l.registry.getOrPut a { node, interfaces := [] } =
          ({ node, interfaces := [] }, l.registry.put a { node, interfaces := [] }) := by
        simp only [Trie.getOrPut, hr]
      simp [hmade, afterRegister, setOccupant, Trie.put_put, Members.has, Entries.has, Members.add,
        Entries.put]
  | some r =>
      have hmade : l.registry.getOrPut a { node, interfaces := [] } = (r, l.registry) := by
        simp only [Trie.getOrPut, hr]
      by_cases hn : r.node = node
      · -- the occupant is put back as it is
        have hput : l.registry.put a r = l.registry := Trie.put_eq_self hl.tidy hr
        have hback : l.setOccupant a r = l := by rw [setOccupant, hput]
        by_cases hk : Members.has name r.interfaces = true
        · simp [hmade, hn, hk, hback, afterRegister]
        · simp [hmade, hn, hk, hput, afterRegister, setOccupant]
      · by_cases hused : (r.node.any isLive && !r.interfaces.isEmpty) = true
        · simp [hmade, hn, hused, afterRegister]
        · simp [hmade, hn, hused, afterRegister, setOccupant, Trie.put_put, Members.has, Entries.has,
            Members.add, Entries.put]

/-- A node that registers changes nothing, or does what registering at its address does. -/
theorem enter_cases (hl : l.Orderly) (isLive : NodeId → Bool) (path : String) (node : Option NodeId)
    (name : String) :
    (∃ e, l.enter isLive path node name = (.error e, l)) ∨
      ∃ a l', Address.parse (Address.join l.root path) = .ok a ∧
        l.register isLive a node name = .ok l' ∧ l.enter isLive path node name = (.ok (), l') := by
  unfold enter
  cases ha : Address.parse (Address.join l.root path) with
  | error e => exact Or.inl ⟨_, rfl⟩
  | ok a =>
      dsimp only
      rw [registerInSteps_eq hl]
      cases h : l.register isLive a node name with
      | error e => exact Or.inl ⟨e, rfl⟩
      | ok l' => exact Or.inr ⟨a, l', rfl, h, rfl⟩

/-- Dropping a name that is not there changes nothing. -/
theorem unregister_of_not_registers (hl : l.Orderly) {a : Address} {name : String}
    (h : ∀ n, ¬l.Registers a name n) : l.unregister a name = (false, l) := by
  unfold unregister
  cases hr : l.registry.get? a with
  | none => rfl
  | some r =>
      have hk : Members.has name r.interfaces = false := by
        cases hk : Members.has name r.interfaces with
        | false => rfl
        | true => exact absurd ⟨r, hr, rfl, hk⟩ (h r.node)
      have hsame : Members.remove name r.interfaces = r.interfaces :=
        Entries.drop_eq_self (by simpa [Members.has, Entries.has] using hk)
      have hne : r.interfaces.isEmpty = false := by simpa using (hl.occupied a r hr).1
      dsimp only
      rw [hsame, hne, hk, if_neg Bool.false_ne_true, Trie.put_eq_self hl.tidy hr]

/-- Dropping changes the registry only. -/
theorem unregister_eq (a : Address) (name : String) :
    (l.unregister a name).2 = { l with registry := (l.unregister a name).2.registry } := by
  unfold unregister
  split <;> rfl

/-- Dropping a name that is there tells so. -/
theorem unregister_of_registers {a : Address} {name : String} {n : Option NodeId}
    (h : l.Registers a name n) : (l.unregister a name).1 = true := by
  obtain ⟨r, hr, -, hk⟩ := h
  simp only [unregister, hr, hk]

/-- A name that is dropped was there, or nothing changes. -/
theorem leave_cases (hl : l.Orderly) (address name : String) :
    l.leave address name = (false, l) ∨
      ∃ a, Address.parse address = .ok a ∧ (∃ n, l.Registers a name n) ∧
        l.leave address name = (true, (l.unregister a name).2) := by
  unfold leave
  cases ha : Address.parse address with
  | error e => exact Or.inl rfl
  | ok a =>
      by_cases h : ∃ n, l.Registers a name n
      · obtain ⟨n, hn⟩ := h
        exact Or.inr ⟨a, rfl, ⟨n, hn⟩, Prod.ext (unregister_of_registers hn) rfl⟩
      · exact Or.inl (unregister_of_not_registers hl (not_exists.1 h))

/-- **A registration that fails leaves no trace.** -/
theorem enter_of_error (hl : l.Orderly) {isLive : NodeId → Bool} {path : String}
    {node : Option NodeId} {name : String} {e : BusError} {l' : Loopback}
    (h : l.enter isLive path node name = (.error e, l')) : l' = l := by
  rcases enter_cases hl isLive path node name with ⟨e', he⟩ | ⟨a, l'', -, -, he⟩
  · rw [he] at h
    cases h
    rfl
  · rw [he] at h
    cases h

/-- **What is not there is dropped without a trace.** -/
theorem leave_of_false (hl : l.Orderly) {address name : String} {l' : Loopback}
    (h : l.leave address name = (false, l')) : l' = l := by
  rcases leave_cases hl address name with he | ⟨a, -, -, he⟩
  · rw [he] at h
    cases h
    rfl
  · rw [he] at h
    cases h

/-- **What is dropped was there**, and nothing else is gone. -/
theorem leave_of_true (hl : l.Orderly) {address name : String} {l' : Loopback}
    (h : l.leave address name = (true, l')) :
    ∃ a, Address.parse address = .ok a ∧ (∃ n, l.Registers a name n) ∧
      l' = { l with registry := l'.registry } ∧
      ∀ b k n, l'.Registers b k n ↔ l.Registers b k n ∧ ¬(b = a ∧ k = name) := by
  rcases leave_cases hl address name with he | ⟨a, ha, hn, he⟩
  · rw [he] at h
    cases h
  · rw [he] at h
    cases h
    exact ⟨a, ha, hn, unregister_eq a name, fun b k n => registers_unregister hl a name⟩

/-! ## Calls one after the other -/

/-- **A call about registrations.** A node calls with its path and under what is live at the time; a name
is dropped at whatever text is given for an address. -/
inductive RegistryCall where
  | enter (isLive : NodeId → Bool) (path : String) (node : Option NodeId) (name : String)
  | leave (address name : String)

/-- The transport after a call. -/
def call (l : Loopback) : RegistryCall → Loopback
  | .enter isLive path node name => (l.enter isLive path node name).2
  | .leave address name => (l.leave address name).2

/-- The transport after calls. -/
def afterCalls (l : Loopback) (calls : List RegistryCall) : Loopback := calls.foldl call l

/-- **Kept under a root**: the transport is orderly, and what is registered is registered at the root or
below it. -/
structure KeptUnder (top : Address) (l : Loopback) : Prop where
  orderly : l.Orderly
  root : Address.parse l.root = .ok top
  within : ∀ a name n, l.Registers a name n → a.isWithin top = true

variable {top : Address}

/-- A new transport is kept under its root. -/
theorem keptUnder_of_make {c : Settings} (h : Loopback.make c = .ok l) : ∃ top, l.KeptUnder top := by
  obtain ⟨hl, hregistry, -⟩ := make_orderly h l.running
  unfold make Settings.parsedRoot at h
  split at h
  · cases h
  · next top htop =>
      cases h
      split at htop
      · cases htop
      · next hparse =>
          cases htop
          refine ⟨top, hl, Address.parse_render (Address.proper_of_parse hparse), ?_⟩
          rintro a name n ⟨r, hr, -⟩
          rw [Trie.get?_eq_find?, hregistry, Trie.find?_empty] at hr
          cases hr

theorem KeptUnder.register (hl : l.KeptUnder top) {isLive : NodeId → Bool} {path : String}
    {node : Option NodeId} {name : String} {a : Address} {l' : Loopback}
    (ha : Address.parse (Address.join l.root path) = .ok a)
    (h : l.register isLive a node name = .ok l') : l'.KeptUnder top where
  orderly := orderly_register hl.orderly h
  root := root_register h ▸ hl.root
  within b k m hm := by
    rcases registers_of_register h hm with hold | ⟨rfl, -, -⟩
    · exact hl.within b k m hold
    · exact Address.isWithin_of_parse_join hl.root ha

theorem KeptUnder.unregister (hl : l.KeptUnder top) (a : Address) (name : String) :
    (l.unregister a name).2.KeptUnder top where
  orderly := orderly_unregister hl.orderly a name
  root := root_unregister (l := l) a name ▸ hl.root
  within b k m hm := hl.within b k m ((registers_unregister hl.orderly a name).1 hm).1

/-- **A call keeps the transport under its root.** -/
theorem KeptUnder.call (hl : l.KeptUnder top) (c : RegistryCall) : (l.call c).KeptUnder top := by
  cases c with
  | enter isLive path node name =>
      rcases enter_cases hl.orderly isLive path node name with ⟨e, he⟩ | ⟨a, l', ha, h, he⟩
      · rwa [Loopback.call, he]
      · rw [Loopback.call, he]
        exact hl.register ha h
  | leave address name =>
      rcases leave_cases hl.orderly address name with he | ⟨a, -, -, he⟩
      · rwa [Loopback.call, he]
      · rw [Loopback.call, he]
        exact hl.unregister a name

theorem KeptUnder.afterCalls (hl : l.KeptUnder top) (calls : List RegistryCall) :
    (l.afterCalls calls).KeptUnder top := by
  induction calls generalizing l with
  | nil => exact hl
  | cons c calls ih => exact ih (hl.call c)

end Loopback

namespace Bus

variable {b : Bus} {t : TransportId} {l : Loopback}

theorem setLoopback_eq_self (ht : b.transport? t = some (.loopback l)) : b.setLoopback t l = b := by
  obtain ⟨s, hs, hsl⟩ := Option.map_eq_some_iff.1 ht
  show { b with transports := Entries.adjust t _ b.transports } = b
  rw [Entries.adjust_eq_self]
  intro s' hs'
  rw [hs] at hs'
  cases hs'
  rw [← hsl]

/-- **A node of a bus registers** with its path, and nothing but the transport changes. -/
theorem callAdd_eq_enter (hl : l.Orderly) (ht : b.transport? t = some (.loopback l)) (h : Host)
    (n : NodeId) (name : String) :
    b.callAdd h t n name =
      let answer := l.enter b.isLiveNode (b.forest.path n) ((b.node? n).map fun _ => n) name
      (answer.1, b.setLoopback t answer.2) := by
  have htext : b.addressText n t = Address.join l.root (b.forest.path n) := by
    rw [addressText, rootOf, ht]
    rfl
  simp only [callAdd, ht, htext, Loopback.enter]
  cases Address.parse (Address.join l.root (b.forest.path n)) with
  | error e => simp only [setLoopback_eq_self ht]
  | ok a =>
      dsimp only
      rw [Loopback.registerInSteps_eq hl]
      cases l.register b.isLiveNode a ((b.node? n).map fun _ => n) name with
      | error e => simp only [Loopback.afterRegister, setLoopback_eq_self ht]
      | ok l' => rfl

/-- **A name is dropped on a bus**, and nothing but the transport changes. -/
theorem callDrop_eq_leave (ht : b.transport? t = some (.loopback l)) (h : Host)
    (address name : String) :
    b.callDrop h t address name =
      ((l.leave address name).1, b.setLoopback t (l.leave address name).2) := by
  simp only [callDrop, ht, Loopback.leave]
  cases Address.parse address with
  | error e => simp only [setLoopback_eq_self ht]
  | ok a => rfl

end Bus

namespace Loopback

/-- **The registry changes by what succeeds, and by nothing else.** A new transport is called in any way:
by nodes that are live or not, at addresses of others that are live or not, with names that are there
or not. Each occupant then has a name and is under the root of the transport. A registration that fails
leaves the transport as it was, and so does dropping what is not there; what is dropped was there, and
this name at this address is all that goes. The calls of a bus are these calls. -/
theorem registry_changes_by_what_succeeds {c : Settings} {l₀ : Loopback}
    (hmake : Loopback.make c = .ok l₀) (calls : List RegistryCall) :
    let l := l₀.afterCalls calls
    (∀ a r, l.registry.get? a = some r →
      r.interfaces ≠ [] ∧ ∃ top, Address.parse l₀.root = .ok top ∧ a.isWithin top = true) ∧
    (∀ isLive path node name e l', l.enter isLive path node name = (.error e, l') → l' = l) ∧
    (∀ address name l', l.leave address name = (false, l') → l' = l) ∧
    (∀ address name l', l.leave address name = (true, l') →
      ∃ a, Address.parse address = .ok a ∧ (∃ n, l.Registers a name n) ∧
        l' = { l with registry := l'.registry } ∧
        ∀ b k n, l'.Registers b k n ↔ l.Registers b k n ∧ ¬(b = a ∧ k = name)) ∧
    (∀ (b : Bus) (h : Host) (t : TransportId), b.transport? t = some (.loopback l) →
      (∀ n name, b.callAdd h t n name =
        let answer := l.enter b.isLiveNode (b.forest.path n) ((b.node? n).map fun _ => n) name
        (answer.1, b.setLoopback t answer.2)) ∧
      ∀ address name, b.callDrop h t address name =
        ((l.leave address name).1, b.setLoopback t (l.leave address name).2)) := by
  intro l
  obtain ⟨top, hl₀⟩ := keptUnder_of_make hmake
  have hl : l.KeptUnder top := hl₀.afterCalls calls
  refine ⟨fun a r hr => ?_, fun _ _ _ _ _ _ h => enter_of_error hl.orderly h,
    fun _ _ _ h => leave_of_false hl.orderly h, fun _ _ _ h => leave_of_true hl.orderly h,
    fun b h t ht => ?_⟩
  · obtain ⟨k, hk⟩ := hl.orderly.exists_registers hr
    exact ⟨(hl.orderly.occupied a r hr).1, top, hl₀.root, hl.within a k _ hk⟩
  · exact ⟨fun n name => Bus.callAdd_eq_enter hl.orderly ht h n name,
      fun address name => Bus.callDrop_eq_leave ht h address name⟩

/-- A transport on which one node has two names. -/
def contested : Loopback where
  name := "local"
  root := "/srv"
  registry := Trie.empty.put ⟨["srv", "a"]⟩ { node := some 1, interfaces := [("J", ()), ("K", ())] }

/-- One node registers and is gone; another one takes its address over and registers two names there. A
third one is refused then, the name of the first one is not there any more, and of the two names the
one that is dropped goes and the other one stays. -/
theorem registry_changes_by_what_succeeds_at_a_contested_address :
    ∃ l₀, Loopback.make { root := "/srv/" } = .ok l₀ ∧
      l₀.afterCalls [.enter (fun _ => true) "a" (some 0) "I",
        .enter (fun n => n != 0) "a" (some 1) "J", .enter (fun n => n != 0) "a" (some 1) "K"] =
          contested ∧
      contested.enter (fun n => n != 0) "a" (some 2) "I" =
        (.error (.duplicate "/srv/a is in use by another node"), contested) ∧
      contested.leave "/srv/a" "I" = (false, contested) ∧
      (contested.leave "/srv/a" "J").1 = true ∧
      (contested.leave "/srv/a" "J").2.Registers ⟨["srv", "a"]⟩ "K" (some 1) ∧
      ¬(contested.leave "/srv/a" "J").2.Registers ⟨["srv", "a"]⟩ "J" (some 1) := by
  have hmade : Loopback.make { root := "/srv/" } = .ok { name := "local", root := "/srv" } := rfl
  have hcalls : ({ name := "local", root := "/srv" } : Loopback).afterCalls
      [.enter (fun _ => true) "a" (some 0) "I", .enter (fun n => n != 0) "a" (some 1) "J",
        .enter (fun n => n != 0) "a" (some 1) "K"] = contested := rfl
  have hkept := registry_changes_by_what_succeeds hmade
    [.enter (fun _ => true) "a" (some 0) "I", .enter (fun n => n != 0) "a" (some 1) "J",
      .enter (fun n => n != 0) "a" (some 1) "K"]
  rw [hcalls] at hkept
  obtain ⟨-, hrefused, habsent, hdropped, -⟩ := hkept
  have henter : (contested.enter (fun n => n != 0) "a" (some 2) "I").1 =
    .error (.duplicate "/srv/a is in use by another node") := rfl
  have hI : (contested.leave "/srv/a" "I").1 = false := rfl
  have hJ : (contested.leave "/srv/a" "J").1 = true := rfl
  have hK : contested.Registers ⟨["srv", "a"]⟩ "K" (some 1) := ⟨_, rfl, rfl, rfl⟩
  obtain ⟨a, ha, -, -, hrest⟩ := hdropped "/srv/a" "J" _ (Prod.ext hJ rfl)
  cases ha
  refine ⟨_, hmade, hcalls, Prod.ext henter ?_, Prod.ext hI ?_, hJ, (hrest _ _ _).2 ⟨hK, by simp⟩, ?_⟩
  · exact hrefused _ _ _ _ _ _ (Prod.ext henter rfl)
  · exact habsent _ _ _ (Prod.ext hI rfl)
  · exact fun h => ((hrest _ _ _).1 h).2 ⟨rfl, rfl⟩

end Loopback

end ObjectBus
