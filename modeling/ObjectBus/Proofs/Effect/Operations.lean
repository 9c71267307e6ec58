import ObjectBus.Proofs.Effect.Destruction

/-!
# Every operation has an effect

The operations that only make something new, or take and let go of handles, are quiet; so is what
happens elsewhere. With the others this makes the two lemmas that all invariants of runs rest on: an
operation keeps a bus sound (`Operation.sound`) and has one of the effects listed
(`Operation.effect`).
-/

set_option autoImplicit false

namespace ObjectBus

namespace Bus

/-! ## Making nodes -/

section Grow

variable {b : Bus} (hb : b.Sound) (name : String) {parent : Option NodeId}
  (hp : ∀ p, parent = some p → (b.node? p).isSome) (servers : List TransportId)

include hb hp

theorem node?_grow (m : NodeId) : (b.withForest (b.forest.grow name parent servers).2).node? m =
    if m = b.forest.next then some (Forest.seedling name parent servers)
    else (b.node? m).map fun y =>
      if parent = some m then { y with children := y.children ++ [b.forest.next] } else y :=
  Forest.get?_grow hb.forest name hp servers m

theorem held_grow (hh : b.Held) :
    (b.withForest (b.forest.grow name parent servers).2).Held where
  nodes {m x} hm := by
    rw [node?_grow hb name hp servers] at hm
    split at hm
    · cases hm
      exact Nat.zero_lt_one
    · obtain ⟨y, hy, rfl⟩ := Option.map_eq_some_iff.1 hm
      have hpos := hh.nodes hy
      split <;> exact hpos
  values := hh.values

theorem has_grow (m : NodeId) (k : String) (i : InterfaceId) :
    (b.withForest (b.forest.grow name parent servers).2).Has m k i ↔ b.Has m k i := by
  unfold Has
  rw [node?_grow hb name hp servers]
  by_cases hm : m = b.forest.next
  · subst hm
    have hnone : b.node? b.forest.next = none := hb.forest.get?_next
    simp [hnone, Forest.seedling, Entries.get?]
  · simp only [hm, if_false, Option.map_eq_some_iff]
    constructor
    · rintro ⟨_, ⟨y, hy, rfl⟩, hk⟩
      refine ⟨y, hy, ?_⟩
      split at hk <;> exact hk
    · rintro ⟨y, hy, hk⟩
      refine ⟨_, ⟨y, hy, rfl⟩, ?_⟩
      split <;> exact hk

theorem faithful_grow (hf : b.Faithful) :
    (b.withForest (b.forest.grow name parent servers).2).Faithful :=
  hf.congr (has_grow hb name hp servers) fun _ => rfl

theorem quiet_grow : b.Quiet (b.withForest (b.forest.grow name parent servers).2) where
  later := laterBelow_of_values rfl fun _ _ h => h
  old {m x} hx := by
    have hne : m ≠ b.forest.next := by
      rintro rfl
      rw [node?, hb.forest.get?_next] at hx
      cases hx
    refine ⟨?_, ?_⟩
    · rw [node?_grow hb name hp servers, if_neg hne, Option.map_map]
      congr 1
      funext y
      simp only [Function.comp_apply]
      split <;> rfl
    · exact Forest.path_grow hb.forest name hp servers hx
  new {m x'} hm hm' := by
    rw [node?_grow hb name hp servers, hm] at hm'
    split at hm'
    · cases hm'
      exact ⟨rfl, rfl⟩
    · cases hm'
  registered _ _ _ _ := Iff.rfl
  managed _ _ := rfl

end Grow

/-! ## Handles -/

section Hold

variable {b : Bus}

theorem held_holdNode (hh : b.Held) (n : NodeId) : (b.holdNode n).Held where
  nodes {m x} hm := by
    obtain ⟨y, hy, rfl | ⟨-, rfl⟩⟩ := Forest.get?_adjust_cases hm
    · exact hh.nodes hy
    · exact Nat.succ_pos _
  values := hh.values

theorem held_holdInterface (hh : b.Held) (i : InterfaceId) : (b.holdInterface i).Held where
  nodes := hh.nodes
  values {j y} hj := by
    rw [holdInterface, interface?_adjustInterface] at hj
    split at hj
    · obtain ⟨z, -, rfl⟩ := Option.map_eq_some_iff.1 hj
      exact Nat.succ_pos _
    · exact hh.values hj

theorem quiet_holdInterface (hh : b.Held) (i : InterfaceId) : b.Quiet (b.holdInterface i) := by
  refine quiet_of_same rfl (fun _ => rfl) (laterBelow_of_values rfl fun j _ hj => ?_)
  obtain ⟨y, hy, -⟩ := exists_of_isLiveInterface hj
  rw [holdInterface, interface?_adjustInterface] at hy
  split at hy
  · obtain ⟨z, hz, -⟩ := Option.map_eq_some_iff.1 hy
    exact hh.isLiveInterface hz
  · exact hh.isLiveInterface hy

/-- Handles to a transport are taken while there is one, or let go. -/
theorem quiet_serverHandles (t : TransportId) (f : Nat → Nat)
    (hf : b.isLiveServer t = true ∨ ∀ c, f c ≤ c) :
    b.Quiet (b.adjustServer t fun s => { s with handles := f s.handles }) := by
  refine quiet_of_same rfl (fun u => by rw [loopback?, loopback?, transport?_adjustHandles])
    ⟨?_, ?_, ?_, ?_⟩
  · intro u _ hu
    by_cases hut : u = t
    · subst hut
      rcases hf with hlive | hle
      · exact hlive
      · obtain ⟨s, hs, hpos⟩ := exists_of_isLiveServer hu
        rw [adjustServer, Entries.get?_adjust, if_pos rfl] at hs
        obtain ⟨r, hr, rfl⟩ := Option.map_eq_some_iff.1 hs
        rw [isLiveServer, hr]
        simpa using Nat.lt_of_lt_of_le hpos (hle r.handles)
    · rw [isLiveServer, adjustServer, Entries.get?_adjust, if_neg hut] at hu
      exact hu
  · intro u _
    rw [rootOf, rootOf, transport?_adjustHandles]
  · intro u _
    rw [loopback?, loopback?, transport?_adjustHandles]
  · exact fun _ hi => hi

end Hold

/-! ## New values and new transports -/

section New

variable {b : Bus} (hb : b.Sound)

theorem held_newInstance (hh : b.Held) {v : Instance} (hv : 0 < v.handles) :
    (b.newInstance v).2.Held where
  nodes := hh.nodes
  values {j y} hj := by
    rw [interface?_newInstance] at hj
    split at hj
    · cases hj
      exact hv
    · exact hh.values hj

/-- A new value has no owner yet. -/
theorem owner?_newInstance (hb : b.Sound) {v : Instance} (hv : v.owner = none) (j : InterfaceId) :
    (b.newInstance v).2.owner? j = b.owner? j := by
  by_cases hj : j = b.next
  · have hnew : (b.newInstance v).2.interface? j = some v := by
      rw [interface?_newInstance, if_pos hj]
    have hold : b.interface? j = none := by
      refine Option.eq_none_iff_forall_ne_some.2 fun w hw => ?_
      exact Nat.lt_irrefl _ (hj ▸ hb.value_lt hw)
    rw [owner?_of_interface? hnew, hv, owner?, hold]
    rfl
  · rw [owner?, interface?_newInstance, if_neg hj, owner?]

theorem faithful_newInstance (hb : b.Sound) (hf : b.Faithful) {v : Instance}
    (hv : v.owner = none) : (b.newInstance v).2.Faithful :=
  hf.of_values rfl (owner?_newInstance hb hv)

theorem quiet_newInstance (b : Bus) (v : Instance) : b.Quiet (b.newInstance v).2 := by
  refine quiet_of_same rfl (fun _ => rfl)
    ⟨fun _ h => h, fun _ => rfl, fun _ => rfl, fun {j} hj hlive => ?_⟩
  unfold isLiveInterface at hlive ⊢
  rwa [interface?_newInstance, if_neg (Nat.ne_of_lt hj)] at hlive

theorem laterBelow_newTransport (b : Bus) (s : Transport) : b.LaterBelow (b.newTransport s).2 := by
  refine ⟨fun {t} ht hlive => ?_, fun {t} ht => ?_, fun {t} ht => ?_, fun _ hi => hi⟩
  · rw [isLiveServer, get?_newTransport, if_neg (Nat.ne_of_lt ht)] at hlive
    exact hlive
  · rw [rootOf, rootOf, transport?_newTransport, if_neg (Nat.ne_of_lt ht)]
  · rw [loopback?_newTransport_of_ne b s (Nat.ne_of_lt ht)]

include hb

theorem loopback?_next : b.loopback? b.next = none := by
  rw [loopback?, transport?]
  cases hget : Entries.get? b.next b.transports with
  | none => rfl
  | some r => exact absurd (hb.server_lt hget) (Nat.lt_irrefl _)

/-- A new transport comes with nothing registered, and nothing is managed there. -/
theorem quiet_newTransport {s : Transport}
    (hs : ∀ l, s = .loopback l → l.registry = .empty ∧ l.managed = []) :
    b.Quiet (b.newTransport s).2 := by
  have hnew : ∀ l, (b.newTransport s).2.loopback? b.next = some l →
      l.registry = .empty ∧ l.managed = [] := by
    intro l hl
    have ht := transport?_of_loopback? hl
    rw [transport?_newTransport, if_pos rfl] at ht
    exact hs l (Option.some.inj ht)
  refine ⟨laterBelow_newTransport b s, fun _ => ⟨rfl, rfl⟩, ?_, ?_, ?_⟩
  · intro m x' hm hm'
    have hm'' : b.node? m = some x' := hm'
    rw [hm] at hm''
    cases hm''
  · intro t a k o
    by_cases ht : t = b.next
    · subst ht
      constructor
      · rintro ⟨l, hl, r, hr, -⟩
        rw [(hnew l hl).1, Trie.get?_eq_find?, Trie.find?_empty] at hr
        cases hr
      · rintro ⟨l, hl, -⟩
        rw [loopback?_next hb] at hl
        cases hl
    · rw [Registered, Registered, loopback?_newTransport_of_ne b s ht]
  · intro t a
    by_cases ht : t = b.next
    · subst ht
      rw [managed?, managed?, loopback?_next hb]
      cases hl : (b.newTransport s).2.loopback? b.next with
      | none => rfl
      | some l =>
          rw [Option.bind_some, (hnew l hl).2]
          rfl
    · rw [managed?, managed?, loopback?_newTransport_of_ne b s ht]

end New

/-! ## What happens elsewhere -/

section Elsewhere

variable {b b' : Bus} (hu : b.Untouched b')

include hu

theorem Untouched.node? (n : NodeId) : b'.node? n = b.node? n := by
  rw [Bus.node?, Bus.node?, hu.forest]

/-- An interface value is where it was. -/
theorem Untouched.exists_value {i : InterfaceId} {v : Instance} (hi : b'.interface? i = some v) :
    ∃ w, b.interface? i = some w ∧ w.Alike v := by
  have hv := hu.values i
  rw [hi] at hv
  generalize b.interface? i = o at hv
  cases hv with
  | some hv => exact ⟨_, rfl, hv⟩

theorem Untouched.exists_server {t : TransportId} {s' : Server}
    (hs : Entries.get? t b'.transports = some s') :
    ∃ s, Entries.get? t b.transports = some s ∧ s.Unchanged s' := by
  have ht := hu.servers t
  rw [hs] at ht
  generalize Entries.get? t b.transports = o at ht
  cases ht with
  | some ht => exact ⟨_, rfl, ht⟩

theorem Untouched.transport? (t : TransportId) :
    Option.Rel Transport.Unchanged (b.transport? t) (b'.transport? t) := by
  have ht := hu.servers t
  unfold Bus.transport?
  generalize Entries.get? t b.transports = o at ht
  generalize Entries.get? t b'.transports = o' at ht
  cases ht with
  | none => exact Option.Rel.none
  | some ht => exact Option.Rel.some ht.2

/-- A loopback transport holds what it held. -/
theorem Untouched.loopback? (t : TransportId) :
    Option.Rel (fun l l' : Loopback => l'.registry = l.registry ∧ l'.managed = l.managed)
      (b.loopback? t) (b'.loopback? t) := by
  have ht := hu.transport? t
  unfold Bus.loopback?
  generalize b.transport? t = o at ht
  generalize b'.transport? t = o' at ht
  cases ht with
  | none => exact Option.Rel.none
  | @some s s' ht =>
      cases s <;> cases s'
      · exact Option.Rel.none
      · exact absurd ht id
      · exact absurd ht id
      · exact Option.Rel.some ht.2

theorem Untouched.loopback?_isSome (t : TransportId) :
    (b'.loopback? t).isSome = (b.loopback? t).isSome := by
  have ht := hu.loopback? t
  generalize b.loopback? t = l at ht
  generalize b'.loopback? t = l' at ht
  cases ht <;> rfl

theorem Untouched.registered (t : TransportId) (a : Address) (k : String) (o : Option NodeId) :
    b'.Registered t a k o ↔ b.Registered t a k o := by
  have ht := hu.loopback? t
  unfold Registered Loopback.Registers
  generalize b.loopback? t = l at ht
  generalize b'.loopback? t = l' at ht
  cases ht with
  | none => rfl
  | some ht => simp only [Option.some.injEq, exists_eq_left', ht.1]

theorem Untouched.managed? (t : TransportId) (a : Address) : b'.managed? t a = b.managed? t a := by
  have ht := hu.loopback? t
  unfold Bus.managed?
  generalize b.loopback? t = l at ht
  generalize b'.loopback? t = l' at ht
  cases ht with
  | none => rfl
  | some ht => simp only [Option.bind_some, ht.2]

theorem Untouched.isLiveInterface {i : InterfaceId} (hi : b'.isLiveInterface i = true) :
    b.isLiveInterface i = true := by
  obtain ⟨v, hv, hpos⟩ := exists_of_isLiveInterface hi
  obtain ⟨w, hw, -, -, hhandles, -⟩ := hu.exists_value hv
  rw [Bus.isLiveInterface, hw]
  simpa [← hhandles] using hpos

theorem Untouched.rootOf (t : TransportId) : b'.rootOf t = b.rootOf t := by
  have ht := hu.transport? t
  unfold Bus.rootOf
  generalize b.transport? t = o at ht
  generalize b'.transport? t = o' at ht
  cases ht with
  | none => rfl
  | @some s s' ht =>
      cases s <;> cases s'
      · exact ht.1
      · exact absurd ht id
      · exact absurd ht id
      · exact ht.1

theorem Untouched.orderly (hb : b.Orderly) : b'.Orderly := by
  refine ⟨hu.forest ▸ hb.nodes, hu.sorted_values, hu.sorted_servers, ?_, ?_⟩
  · intro t l' hl'
    have ht := hu.loopback? t
    rw [hl'] at ht
    cases hl : b.loopback? t with
    | none => rw [hl] at ht; cases ht
    | some l =>
        rw [hl] at ht
        cases ht with
        | some ht =>
            have ho := hb.loopbacks t l hl
            exact ⟨ht.1 ▸ ho.tidy, ht.1 ▸ ho.occupied, ht.2 ▸ ho.managed⟩
  · intro t r' hr'
    have ht := hu.transport? t
    rw [transport?_of_recorder? hr'] at ht
    cases hs : b.transport? t with
    | none => rw [hs] at ht; cases ht
    | some s =>
        rw [hs] at ht
        cases ht with
        | some ht =>
            cases s with
            | loopback l => exact absurd ht id
            | recorder r => exact ht.2.1.trans (hb.hookless t r (recorder?_of_transport? hs))

theorem Untouched.sound (hb : b.Sound) : b'.Sound where
  orderly := hu.orderly hb.orderly
  forest := hu.forest ▸ hb.forest
  table hn := hb.table ((hu.node? _).symm.trans hn)
  entry_lt hn hk :=
    Nat.lt_of_lt_of_le (hb.entry_lt ((hu.node? _).symm.trans hn) hk) hu.next
  entry {n x k i y} hn hk hi := by
    obtain ⟨w, hw, hname, howner, -⟩ := hu.exists_value hi
    rw [hname, howner]
    exact hb.entry ((hu.node? n).symm.trans hn) hk hw
  value_lt hi := by
    obtain ⟨w, hw, -⟩ := hu.exists_value hi
    exact Nat.lt_of_lt_of_le (hb.value_lt hw) hu.next
  server_lt hs := by
    obtain ⟨s, hs, -⟩ := hu.exists_server hs
    exact Nat.lt_of_lt_of_le (hb.server_lt hs) hu.next
  bound_lt hn ht := Nat.lt_of_lt_of_le (hb.bound_lt ((hu.node? _).symm.trans hn) ht) hu.next

theorem Untouched.held (hh : b.Held) : b'.Held where
  nodes hn := hh.nodes ((hu.node? _).symm.trans hn)
  values hi := by
    obtain ⟨w, hw, -, -, hhandles, -⟩ := hu.exists_value hi
    rw [hhandles]
    exact hh.values hw

theorem Untouched.owner? (i : InterfaceId) : b'.owner? i = b.owner? i := by
  have hv := hu.values i
  unfold Bus.owner?
  generalize b.interface? i = o at hv
  generalize b'.interface? i = o' at hv
  cases hv with
  | none => rfl
  | some hv => rw [Option.bind_some, Option.bind_some, hv.1, hv.2.1]

theorem Untouched.faithful (hf : b.Faithful) : b'.Faithful := hf.of_values hu.forest hu.owner?

theorem Untouched.quiet : b.Quiet b' where
  later := by
    refine ⟨fun {t} _ hlive => ?_, fun _ => hu.rootOf _, fun _ => hu.loopback?_isSome _,
      fun _ hi => hu.isLiveInterface hi⟩
    obtain ⟨s', hs', hpos⟩ := exists_of_isLiveServer hlive
    obtain ⟨s, hs, hhandles, -⟩ := hu.exists_server hs'
    rw [isLiveServer, hs]
    simpa [← hhandles] using hpos
  old _ := sameAt_of_forest hu.forest _
  new {m x'} hm hm' := by
    rw [hu.node?, hm] at hm'
    cases hm'
  registered := hu.registered
  managed := hu.managed?

end Elsewhere

/-! ## One operation -/

theorem exists_of_isLoose {b : Bus} {i : InterfaceId} (h : b.isLooseInterface i = true) :
    ∃ y, b.interface? i = some y := by
  unfold isLooseInterface at h
  cases hi : b.interface? i with
  | none => rw [hi] at h; cases h
  | some y => exact ⟨y, rfl⟩

/-- **An operation moves an attached value out of its handle.** -/
def TakesAttached (b : Bus) (op : Operation) : Prop :=
  ∃ i y, op = .takeOut i ∧ b.interface? i = some y ∧ y.owner.isSome = true

end Bus

/-- **An operation that has to do with handles only**, or makes something new. -/
def Operation.IsQuiet : Operation → Prop
  | dropNode _ => False
  | makeInterface _ _ => False
  | dropInterface _ => False
  | detach _ _ => False
  | bind _ _ => False
  | unbind _ _ => False
  | manage _ _ => False
  | _ => True

namespace Bus

/-- Nothing happens. -/
theorem quiet_refl (b : Bus) : b.Quiet b :=
  quiet_of_same rfl (fun _ => rfl) (Later.refl b).below

/-- **An operation that a transport may refuse.** -/
def Refusable : Operation → Prop
  | .makeInterface _ _ => True
  | .bind _ _ => True
  | _ => False

/-- **What is true after every operation**: the bus is still sound, everything is held, and the
operation had an effect, or destroyed a node. The effect of a refusal is known only while all
registrations are for live nodes. Names and beliefs go on to agree unless an attached value was
moved out of its handle. -/
structure Proceeds (op : Operation) (b b' : Bus) : Prop where
  sound : b'.Sound
  held : b'.Held
  faithful : ¬b.TakesAttached op → b.Faithful → b'.Faithful
  effect : (Refusable op → b.Tenanted) → b.Effect b' ∨
    ∃ n x, op = .dropNode n ∧ b.node? n = some x ∧ x.handles = 1 ∧ b.Destroyed b' n

theorem Keeps.proceeds {op : Operation} {b b' : Bus} (hk : b.Keeps b')
    (he : (Refusable op → b.Tenanted) → b.Effect b') : Proceeds op b b' :=
  ⟨hk.sound, hk.held, fun _ => hk.faithful, fun hten => Or.inl (he hten)⟩

theorem Keeps.quiet {op : Operation} {b b' : Bus} (hk : b.Keeps b') (hq : b.Quiet b') :
    Proceeds op b b' := hk.proceeds fun _ => .quiet hq

section Quiet

variable {b : Bus} (hb : b.Sound) (levels : Nat)

/-- A node that is there can be a parent. -/
theorem isSome_of_node? {p : NodeId} {x : Node} (hp : b.node? p = some x) (q : NodeId)
    (hq : some p = some q) : (b.node? q).isSome := by
  rw [← Option.some.inj hq, hp]
  rfl

include hb

/-- A value that is moved out takes its names nowhere. -/
theorem quiet_movedOut (i : InterfaceId) (y : Instance) : b.Quiet (b.movedOut i y) := by
  have hnew := quiet_newInstance (b.forget i) { y with isLoose := true }
  refine quiet_of_same rfl (fun _ => rfl) ⟨fun _ h => h, fun _ => rfl, fun _ => rfl, ?_⟩
  intro j hj hlive
  exact (later_forget hb.orderly i).values (hnew.later.values hj hlive)

theorem quiet_makeChild (p : NodeId) (name : String) :
    b.Quiet ((Operation.makeChild p name).apply levels b) := by
  cases hp : b.node? p with
  | none =>
      simp only [Operation.apply, hp]
      exact quiet_refl b
  | some x =>
      simp only [Operation.apply, hp]
      exact quiet_grow hb name (isSome_of_node? hp) _

theorem quiet_openLoopback (settings : Settings) :
    b.Quiet ((Operation.openLoopback settings).apply levels b) := by
  cases hl : Loopback.make settings with
  | error e =>
      simp only [Operation.apply, hl]
      exact quiet_refl b
  | ok l =>
      simp only [Operation.apply, hl]
      refine quiet_newTransport hb ?_
      rintro _ ⟨⟩
      exact (Loopback.make_orderly hl l.running).2

/-- **Operations that only make something new**, or take and let go of handles. -/
theorem quiet_apply (hh : b.Held) {op : Operation} (hop : op.IsQuiet) :
    b.Quiet (op.apply levels b) := by
  cases op with
  | makeRoot name =>
      have hp : ∀ p, none = some p → (b.node? p).isSome := fun _ h => nomatch h
      exact quiet_grow hb name hp []
  | makeChild parent name => exact quiet_makeChild hb levels parent name
  | holdNode n => exact quiet_handles b n (· + 1)
  | build interface => exact quiet_newInstance b { interface }
  | takeOut i =>
      simp only [Operation.apply]
      split
      · exact quiet_refl b
      · split
        · exact quiet_refl b
        · exact quiet_movedOut hb i _
  | holdInterface i =>
      simp only [Operation.apply]
      split
      · exact quiet_refl b
      · exact quiet_holdInterface hh i
  | openLoopback settings => exact quiet_openLoopback hb levels settings
  | openRecorder label root => exact quiet_newTransport hb fun _ h => by cases h
  | holdTransport t =>
      simp only [Operation.apply]
      split
      · next hlive => exact quiet_serverHandles t (· + 1) (Or.inl hlive)
      · exact quiet_refl b
  | dropTransport t => exact quiet_serverHandles t (· - 1) (Or.inr fun c => Nat.sub_le c 1)
  | dropNode | makeInterface | dropInterface | detach | bind | unbind | manage => exact hop.elim

end Quiet

section Proceeds

variable {b : Bus} (hb : b.Sound) (hh : b.Held) (levels : Nat) {op : Operation}

include hb hh

theorem proceeds_refl : Proceeds op b b := Keeps.quiet (Keeps.refl hb hh) (quiet_refl b)

theorem proceeds_makeChild (p : NodeId) (name : String) :
    Proceeds (.makeChild p name) b ((Operation.makeChild p name).apply levels b) := by
  have hquiet := quiet_makeChild hb levels p name
  cases hp : b.node? p with
  | none =>
      simp only [Operation.apply, hp]
      exact proceeds_refl hb hh
  | some x =>
      simp only [Operation.apply, hp] at hquiet ⊢
      have hparent := isSome_of_node? hp
      refine Keeps.quiet ⟨hb.grow name hparent fun t ht => ?_, held_grow hb name hparent _ hh,
        faithful_grow hb name hparent _⟩ hquiet
      exact hb.bound_lt hp (mem_transportsOf.1 ht).1

theorem proceeds_dropNode (n : NodeId) :
    Proceeds (.dropNode n) b ((Operation.dropNode n).apply levels b) := by
  simp only [Operation.apply]
  split
  · next hlive =>
      obtain ⟨x, hx, -⟩ := exists_of_isLiveNode hlive
      by_cases hlast : x.handles = 1
      · obtain ⟨hk, hd⟩ := releaseNode_last hb hh levels hx hlast
        exact ⟨hk.sound, hk.held, fun _ => hk.faithful,
          fun _ => Or.inr ⟨n, x, rfl, hx, hlast, hd⟩⟩
      · obtain ⟨hk, hq⟩ := releaseNode_more hb hh levels hx hlast
        exact hk.quiet hq
  · exact proceeds_refl hb hh

theorem proceeds_makeInterface (i : InterfaceId) (n : NodeId) :
    Proceeds (.makeInterface i n) b ((Operation.makeInterface i n).apply levels b) := by
  simp only [Operation.apply]
  split
  · next hboth =>
      rw [Bool.and_eq_true] at hboth
      obtain ⟨x, hx, -⟩ := exists_of_isLiveNode hboth.2
      obtain ⟨y, hy⟩ := exists_of_isLoose hboth.1
      obtain ⟨hk, he⟩ := makeInterface_spec hb levels hy hx hh
      exact hk.proceeds fun hten => he (hten trivial)
  · exact proceeds_refl hb hh

theorem proceeds_takeOut (i : InterfaceId) :
    Proceeds (.takeOut i) b ((Operation.takeOut i).apply levels b) := by
  cases hi : b.interface? i with
  | none =>
      simp only [Operation.apply, hi]
      exact proceeds_refl hb hh
  | some y =>
      simp only [Operation.apply, hi]
      split
      · exact proceeds_refl hb hh
      · -- the value is forgotten, and a new one has taken its place
        have hpos := hh.values hi
        refine ⟨(hb.dropValue i).newInstance _, held_newInstance (hh.forget hb.orderly i) hpos,
          fun hloose hf => ?_, fun _ => Or.inl (.quiet (quiet_movedOut hb i y))⟩
        have ho : y.owner = none :=
          Option.not_isSome_iff_eq_none.1 fun ho => hloose ⟨i, y, rfl, hi, ho⟩
        refine faithful_newInstance (hb.dropValue i) ?_ ho
        refine hf.of_loose (i := i) rfl ?_ (owner?_forget hb.orderly i)
        rw [owner?_of_interface? hi, ho]
        rfl

theorem proceeds_dropInterface (i : InterfaceId) :
    Proceeds (.dropInterface i) b ((Operation.dropInterface i).apply levels b) := by
  simp only [Operation.apply]
  split
  · next hlive =>
      obtain ⟨y, hy, -⟩ := exists_of_isLiveInterface hlive
      obtain ⟨hk, ⟨n, x, name, hdropped⟩ | hquiet⟩ := releaseInterface_spec levels hb hh hy
      · exact hk.proceeds fun _ => .dropped hdropped
      · exact hk.quiet hquiet
  · exact proceeds_refl hb hh

theorem proceeds_detach (n : NodeId) (name : String) :
    Proceeds (.detach n name) b ((Operation.detach n name).apply levels b) := by
  simp only [Operation.apply]
  cases hn : b.node? n with
  | none =>
      simp only [detach, hn]
      exact proceeds_refl hb hh
  | some x =>
      cases hk : Entries.get? name x.interfaces with
      | none =>
          simp only [detach, hn, hk]
          exact proceeds_refl hb hh
      | some i =>
          obtain ⟨hkeeps, hd⟩ := detach_spec hb hh (.ofLevels (levels + 1)) hn hk
          exact hkeeps.proceeds fun _ => .dropped hd

theorem proceeds_bind (n : NodeId) (t : TransportId) :
    Proceeds (.bind n t) b ((Operation.bind n t).apply levels b) := by
  simp only [Operation.apply]
  split
  · next hlive =>
      cases hn : b.node? n with
      | none =>
          simp only [bind, hn]
          exact proceeds_refl hb hh
      | some x =>
          by_cases ht : t ∈ x.servers
          · simp only [bind, hn, List.contains_iff_mem.2 ht, if_true]
            exact proceeds_refl hb hh
          · obtain ⟨hk, hbound⟩ := bind_spec hb hh (.ofLevels (levels + 1)) hn hlive ht
            refine hk.proceeds fun hten => ?_
            rcases hbound with ⟨-, hbound⟩ | ⟨e, -, hcalled, hsame⟩
            · exact .bound hbound
            · refine .quiet (quiet_of_same hcalled.forest (fun u => ?_) hcalled.later.below)
              rw [loopback?, loopback?, hsame (hten trivial)]
  · exact proceeds_refl hb hh

theorem proceeds_unbind (n : NodeId) (t : TransportId) :
    Proceeds (.unbind n t) b ((Operation.unbind n t).apply levels b) := by
  simp only [Operation.apply]
  split
  · next hlive =>
      cases hn : b.node? n with
      | none =>
          simp only [unbind, hn]
          exact proceeds_refl hb hh
      | some x =>
          by_cases ht : t ∈ x.servers
          · obtain ⟨hk, hunbound⟩ := unbind_spec hb hh (.ofLevels (levels + 1)) hn hlive ht
            exact hk.proceeds fun _ => .unbound hunbound
          · have hno : x.servers.contains t = false := by simpa using ht
            simp only [unbind, hn, hno, Bool.not_false, if_true]
            exact proceeds_refl hb hh
  · exact proceeds_refl hb hh

theorem proceeds_manage (n : NodeId) (object : Option ObjectId) :
    Proceeds (.manage n object) b ((Operation.manage n object).apply levels b) := by
  simp only [Operation.apply]
  cases hn : b.node? n with
  | none =>
      simp only [manage, hn]
      exact proceeds_refl hb hh
  | some x =>
      obtain ⟨hk, hm⟩ := manage_spec hb hh (.ofLevels (levels + 1)) hn object
      exact hk.proceeds fun _ => .managed hm

theorem proceeds_newTransport {s : Transport}
    (hl : ∀ l, s = .loopback l → l.Orderly ∧ l.registry = .empty ∧ l.managed = [])
    (hr : ∀ r, s = .recorder r → r.hooks = []) : Proceeds op b (b.newTransport s).2 :=
  Keeps.quiet ⟨hb.newTransport (fun l h => (hl l h).1) hr, ⟨hh.nodes, hh.values⟩,
    fun hf => hf.of_values rfl fun _ => rfl⟩ (quiet_newTransport hb fun l h => (hl l h).2)

theorem proceeds_openLoopback (settings : Settings) :
    Proceeds (.openLoopback settings) b ((Operation.openLoopback settings).apply levels b) := by
  cases hl : Loopback.make settings with
  | error e =>
      simp only [Operation.apply, hl]
      exact proceeds_refl hb hh
  | ok l =>
      simp only [Operation.apply, hl]
      refine proceeds_newTransport hb hh ?_ (fun r h => by cases h)
      rintro _ ⟨⟩
      exact Loopback.make_orderly hl l.running

theorem proceeds_serverHandles (t : TransportId) (f : Nat → Nat)
    (hf : b.isLiveServer t = true ∨ ∀ c, f c ≤ c) :
    Proceeds op b (b.adjustServer t fun s => { s with handles := f s.handles }) :=
  Keeps.quiet ⟨hb.adjustHandles t f, ⟨hh.nodes, hh.values⟩,
    fun hf => hf.of_values rfl fun _ => rfl⟩ (quiet_serverHandles t f hf)

/-- **Every operation has an effect**, and keeps a bus sound. -/
theorem proceeds_apply (op : Operation) : Proceeds op b (op.apply levels b) := by
  cases op with
  | makeRoot name =>
      have hp : ∀ p, none = some p → (b.node? p).isSome := fun _ h => nomatch h
      exact Keeps.quiet ⟨hb.grow name hp (fun _ h => nomatch h), held_grow hb name hp [] hh,
        faithful_grow hb name hp []⟩ (quiet_grow hb name hp [])
  | makeChild parent name => exact proceeds_makeChild hb hh levels parent name
  | holdNode n =>
      exact Keeps.quiet ⟨hb.adjustNode n (shrinks_handles b (· + 1)), held_holdNode hh n,
        fun hf => hf.adjustNode n fun _ => rfl⟩ (quiet_handles b n (· + 1))
  | dropNode n => exact proceeds_dropNode hb hh levels n
  | build interface =>
      exact Keeps.quiet ⟨hb.newInstance _, held_newInstance hh Nat.zero_lt_one,
        fun hf => faithful_newInstance hb hf rfl⟩ (quiet_newInstance b { interface })
  | makeInterface i n => exact proceeds_makeInterface hb hh levels i n
  | takeOut i => exact proceeds_takeOut hb hh levels i
  | holdInterface i =>
      simp only [Operation.apply]
      split
      · exact proceeds_refl hb hh
      · exact Keeps.quiet ⟨hb.adjustInterface i fun _ _ => ⟨rfl, rfl⟩, held_holdInterface hh i,
          fun hf => hf.adjustInterface i fun _ => ⟨rfl, rfl⟩⟩ (quiet_holdInterface hh i)
  | dropInterface i => exact proceeds_dropInterface hb hh levels i
  | detach n name => exact proceeds_detach hb hh levels n name
  | bind n t => exact proceeds_bind hb hh levels n t
  | unbind n t => exact proceeds_unbind hb hh levels n t
  | manage n object => exact proceeds_manage hb hh levels n object
  | openLoopback settings => exact proceeds_openLoopback hb hh levels settings
  | openRecorder label root =>
      refine proceeds_newTransport hb hh (fun l h => by cases h) ?_
      rintro _ ⟨⟩
      rfl
  | holdTransport t =>
      simp only [Operation.apply]
      split
      · next hlive => exact proceeds_serverHandles hb hh t (· + 1) (Or.inl hlive)
      · exact proceeds_refl hb hh
  | dropTransport t =>
      exact proceeds_serverHandles hb hh t (· - 1) (Or.inr fun c => Nat.sub_le c 1)

end Proceeds

/-! ## Runs -/

/-- **Reachable buses are sound**, and everything in them is held. -/
theorem Reachable.sound_held {levels : Nat} {b : Bus} (hb : b.Reachable levels) :
    b.Sound ∧ b.Held := by
  induction hb with
  | empty => exact ⟨sound_empty, held_empty⟩
  | step op _ _ ih =>
      have hnext := proceeds_apply ih.1 ih.2 levels op
      exact ⟨hnext.sound, hnext.held⟩
  | elsewhere _ hu ih => exact ⟨hu.sound ih.1, hu.held ih.2⟩

end Bus

end ObjectBus
