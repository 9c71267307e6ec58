import ObjectBus.Proofs.Synchrony
import ObjectBus.Proofs.Share.Neighbours

/-!
# Two parties take turns

Two parties work on one loopback transport, each on things of its own. A `Step` of a party is about
what this party has made, the first node, the second one and so on, so the same steps can be taken
whatever ids the things have. `Scene.run` takes the steps of both in a given order and notes for each
party what it has made and what it was told.

Ids are given out in turn, so what the two have made is apart (`Ledger`), and a party that is alone has
all ids that there are (`Scene.alone_run`). The ids that a party has in another run are a renumbering
of those that it has alone (`map_numbering`).
-/

set_option autoImplicit false

namespace ObjectBus

/-- One of two parties. -/
inductive Side where
  | left
  | right
  deriving DecidableEq

namespace Side

/-- The party across. -/
def other : Side → Side
  | left => right
  | right => left

/-- What parties have, with something new for one of them. -/
def more {α : Type} (s : Side) (new : List α) (had : Side → List α) : Side → List α :=
  fun o => if o = s then had o ++ new else had o

variable {α : Type} (s : Side) (new : List α) (had : Side → List α)

@[simp] theorem more_self : s.more new had s = had s ++ new := if_pos rfl

theorem more_of_ne {o : Side} (h : o ≠ s) : s.more new had o = had o := if_neg h

/-- Both parties are this one and the other one. -/
theorem forall_of_ne {P : Side → Prop} (s : Side) (hs : P s) (hothers : ∀ o, o ≠ s → P o) :
    ∀ o, P o := by
  intro o
  by_cases ho : o = s
  · exact ho ▸ hs
  · exact hothers o ho

end Side

/-- The transport that both parties use. -/
def sharedTransport : TransportId := 0

/-- **A step of a party**. Nodes and interface values are counted as the party has made them; a value
that is moved out of its handle is a new one. -/
inductive Step where
  | makeRoot (name : String)
  | makeChild (parent : Nat) (name : String)
  | holdNode (n : Nat)
  | dropNode (n : Nat)
  | build (interface : Interface)
  | attach (i n : Nat)
  | takeOut (i : Nat)
  | holdInterface (i : Nat)
  | dropInterface (i : Nat)
  | detach (n : Nat) (name : String)
  | bind (n : Nat)
  | unbind (n : Nat)
  | manage (n : Nat) (object : Option ObjectId)

/-- **The operation that a step stands for**, or none if it is about something that is not made
yet. -/
def Step.operation? (nodes : List NodeId) (values : List InterfaceId) : Step → Option Operation
  | makeRoot name => some (.makeRoot name)
  | makeChild parent name => nodes[parent]?.map fun q => .makeChild q name
  | holdNode n => nodes[n]?.map .holdNode
  | dropNode n => nodes[n]?.map .dropNode
  | build interface => some (.build interface)
  | attach i n => values[i]?.bind fun i => nodes[n]?.map fun n => .makeInterface i n
  | takeOut i => values[i]?.map .takeOut
  | holdInterface i => values[i]?.map .holdInterface
  | dropInterface i => values[i]?.map .dropInterface
  | detach n name => nodes[n]?.map fun n => .detach n name
  | bind n => nodes[n]?.map fun n => .bind n sharedTransport
  | unbind n => nodes[n]?.map fun n => .unbind n sharedTransport
  | manage n object => nodes[n]?.map fun n => .manage n object

/-- The ids given out between two states of a counter. -/
def idsBetween (next next' : Nat) : List Nat := List.range' next (next' - next)

/-- **A bus, and what each party knows**: the nodes and the interface values that it has made, in
order, and the answer to every step, if it came to one. -/
structure Scene where
  bus : Bus
  nodes : Side → List NodeId := fun _ => []
  values : Side → List InterfaceId := fun _ => []
  answers : Side → List (Option (Except (Failure BusError) Bool)) := fun _ => []

namespace Scene

/-- Both parties have done nothing. -/
def opened (l : Loopback) : Scene := { bus := (({} : Bus).newTransport (.loopback l)).2 }

/-- **A party takes a step.** What is made by it is the party's. -/
def step (levels : Nat) (sc : Scene) : Side × Step → Scene
  | (s, step) =>
      match step.operation? (sc.nodes s) (sc.values s) with
      | none => { sc with answers := s.more [none] sc.answers }
      | some op =>
          let bus := op.apply levels sc.bus
          { bus
            nodes := s.more (idsBetween sc.bus.forest.next bus.forest.next) sc.nodes
            values := s.more (idsBetween sc.bus.next bus.next) sc.values
            answers := s.more [some (op.answer levels sc.bus)] sc.answers }

/-- **A run**: the steps of both parties, in some order. -/
def run (levels : Nat) (l : Loopback) (moves : List (Side × Step)) : Scene :=
  moves.foldl (step levels) (opened l)

theorem run_concat (levels : Nat) (l : Loopback) (moves : List (Side × Step))
    (move : Side × Step) :
    run levels l (moves ++ [move]) = (run levels l moves).step levels move := by
  rw [run, List.foldl_append]
  rfl

/-- The steps of one party. -/
def own (s : Side) (moves : List (Side × Step)) : List (Side × Step) :=
  moves.filter fun move => move.1 = s

theorem of_mem_own {moves : List (Side × Step)} {s : Side} {move : Side × Step}
    (h : move ∈ own s moves) : move.1 = s := by
  simpa using (List.mem_filter.1 h).2

theorem own_concat_self (moves : List (Side × Step)) (s : Side) (step : Step) :
    own s (moves ++ [(s, step)]) = own s moves ++ [(s, step)] := by
  simp [own, List.filter_append]

theorem own_concat_of_ne (moves : List (Side × Step)) {s o : Side} (h : o ≠ s) (step : Step) :
    own o (moves ++ [(s, step)]) = own o moves := by
  simp [own, List.filter_append, Ne.symm h]

theorem own_own (s : Side) (moves : List (Side × Step)) : own s (own s moves) = own s moves := by
  simp [own, List.filter_filter]

theorem own_own_of_ne {s o : Side} (h : s ≠ o) (moves : List (Side × Step)) :
    own s (own o moves) = [] := by
  refine List.filter_eq_nil_iff.2 fun move hmove => ?_
  rw [of_mem_own hmove]
  simpa using h.symm

/-- **The addresses where nodes have ever been** in a run. -/
def visited (levels : Nat) (l : Loopback) (moves : List (Side × Step)) : List Address :=
  moves.inits.flatMap fun front => (run levels l front).bus.addressesOn sharedTransport

end Scene

/-! ## Steps and operations -/

namespace Step

/-- A step stands for the same operation under other ids. -/
theorem operation?_under (p : Share) (nodes : List NodeId) (values : List InterfaceId)
    (step : Step) : step.operation? (nodes.map p.nodeId) (values.map p.valueId) =
      (step.operation? nodes values).map (·.under p) := by
  cases step with
  | attach i n =>
      simp only [operation?, List.getElem?_map]
      cases values[i]? <;> cases nodes[n]? <;> rfl
  | makeRoot | build => rfl
  | makeChild n | holdNode n | dropNode n | detach n | bind n | unbind n | manage n =>
      simp only [operation?, List.getElem?_map]
      cases nodes[n]? <;> rfl
  | takeOut i | holdInterface i | dropInterface i =>
      simp only [operation?, List.getElem?_map]
      cases values[i]? <;> rfl

/-- A step has to do with the shared transport only. -/
theorem isAbout_of_operation? {nodes : List NodeId} {values : List InterfaceId} {step : Step}
    {op : Operation} (h : step.operation? nodes values = some op) :
    op.IsAbout sharedTransport := by
  cases step <;> simp only [operation?, Option.map_eq_some_iff, Option.bind_eq_some_iff,
    Option.some.injEq] at h
  case attach =>
    obtain ⟨i, -, n, -, rfl⟩ := h
    trivial
  case makeRoot | build => subst h; trivial
  case bind | unbind =>
    obtain ⟨n, -, rfl⟩ := h
    exact rfl
  all_goals
    obtain ⟨k, -, rfl⟩ := h
    trivial

end Step

/-! ## Numbers -/

@[simp] theorem length_idsBetween (a b : Nat) : (idsBetween a b).length = b - a :=
  List.length_range'

theorem idsBetween_eq_cons {a b : Nat} (h : a < b) :
    idsBetween a b = a :: idsBetween (a + 1) b := by
  have hlen : b - a = (b - (a + 1)) + 1 := by omega
  rw [idsBetween, idsBetween, hlen, List.range'_succ]

theorem idsBetween_append {a b c : Nat} (hab : a ≤ b) (hbc : b ≤ c) :
    idsBetween a b ++ idsBetween b c = idsBetween a c := by
  have hstart : b = a + (b - a) := by omega
  have hsum : c - a = (b - a) + (c - b) := by omega
  rw [idsBetween, idsBetween, idsBetween, hsum, ← List.range'_append_1]
  rw [← hstart]

theorem mem_idsBetween {a b k : Nat} : k ∈ idsBetween a b ↔ a ≤ k ∧ k < b := by
  rw [idsBetween, List.mem_range'_1]
  omega

/-- **A renumbering**: the numbers from `off` on become what is listed, one after the other. Others, and
those beyond the list, become numbers of their own from `bound` on; `parity` keeps two renumberings apart
there. -/
def numbering (off : Nat) (listed : List Nat) (bound : Nat) (parity : Fin 2) (k : Nat) : Nat :=
  (if off ≤ k then listed[k - off]? else none).getD (bound + 2 * k + parity)

section Numbering

variable {off : Nat} {listed : List Nat} {bound : Nat} {parity : Fin 2}

/-- What a number becomes: something listed, or a number of its own. -/
theorem numbering_cases (off : Nat) (listed : List Nat) (bound : Nat) (parity : Fin 2) (k : Nat) :
    (off ≤ k ∧ listed[k - off]? = some (numbering off listed bound parity k)) ∨
      ((off ≤ k → listed.length ≤ k - off) ∧
        numbering off listed bound parity k = bound + 2 * k + parity) := by
  unfold numbering
  by_cases hk : off ≤ k
  · rw [if_pos hk]
    cases hget : listed[k - off]? with
    | none => exact Or.inr ⟨fun _ => List.getElem?_eq_none_iff.1 hget, rfl⟩
    | some v => exact Or.inl ⟨hk, rfl⟩
  · exact Or.inr ⟨fun h => absurd h hk, by rw [if_neg hk]; rfl⟩

theorem numbering_injective (hnodup : listed.Nodup) (hbelow : ∀ v ∈ listed, v < bound) :
    Function.Injective (numbering off listed bound parity) := by
  intro j k hjk
  have hlt : ∀ {i v}, listed[i]? = some v → v < bound :=
    fun h => hbelow _ (List.mem_of_getElem? h)
  rcases numbering_cases off listed bound parity j with ⟨hj, hgetj⟩ | ⟨-, heqj⟩ <;>
    rcases numbering_cases off listed bound parity k with ⟨hk, hgetk⟩ | ⟨-, heqk⟩
  · -- both are listed, at the same place
    rw [hjk] at hgetj
    obtain ⟨hlen, -⟩ := List.getElem?_eq_some_iff.1 hgetj
    have hsame := (List.getElem?_inj hlen hnodup).1 (hgetj.trans hgetk.symm)
    omega
  · -- what is listed is below the bound, what is not is beyond it
    have hj := hlt hgetj
    omega
  · have hk := hlt hgetk
    omega
  · omega

/-- **Two renumberings are apart**, if they list different numbers. -/
theorem numbering_ne {off' : Nat} {listed' : List Nat} {parity' : Fin 2}
    (hbelow : ∀ v ∈ listed, v < bound) (hbelow' : ∀ v ∈ listed', v < bound)
    (hapart : ∀ v ∈ listed, v ∉ listed') (hparity : parity ≠ parity') (j k : Nat) :
    numbering off listed bound parity j ≠ numbering off' listed' bound parity' k := by
  intro hjk
  rcases numbering_cases off listed bound parity j with ⟨-, hgetj⟩ | ⟨-, heqj⟩ <;>
    rcases numbering_cases off' listed' bound parity' k with ⟨-, hgetk⟩ | ⟨-, heqk⟩
  · -- both are listed, each in a list of its own
    have hmem := List.mem_of_getElem? hgetj
    rw [hjk] at hmem
    exact hapart _ hmem (List.mem_of_getElem? hgetk)
  · have hj := hbelow _ (List.mem_of_getElem? hgetj)
    omega
  · have hk := hbelow' _ (List.mem_of_getElem? hgetk)
    omega
  · -- both are beyond the bound, with different parities
    omega

/-- The numbers from `off` on become the list, as far as it goes. -/
theorem map_numbering {front : List Nat} (hfront : front <+: listed) {k : Nat}
    (hlen : front.length = k - off) :
    (idsBetween off k).map (numbering off listed bound parity) = front := by
  refine List.ext_getElem (by simp [idsBetween, hlen]) fun i hi hi' => ?_
  have hget : listed[off + i - off]? = some front[i] := by
    rw [Nat.add_sub_cancel_left]
    obtain ⟨tail, rfl⟩ := hfront
    rw [List.getElem?_append_left hi', List.getElem?_eq_getElem hi']
  have hnumber : numbering off listed bound parity (off + i) = front[i] := by
    rw [numbering, if_pos (Nat.le_add_right off i), hget]
    rfl
  simpa [idsBetween] using hnumber

end Numbering

/-! ## Who made what -/

theorem Side.mem_more {α : Type} {s o : Side} {new : List α} {had : Side → List α} {x : α} :
    x ∈ s.more new had o ↔ x ∈ had o ∨ (o = s ∧ x ∈ new) := by
  by_cases ho : o = s
  · subst ho
    simp
  · rw [Side.more_of_ne s new had ho]
    simp [ho]

/-- **What the parties have made is apart**, each thing once, and older than whatever comes next. -/
structure Ledger (made : Side → List Nat) (next : Nat) : Prop where
  nodup : ∀ s, (made s).Nodup
  below : ∀ s, ∀ k ∈ made s, k < next
  apart : ∀ s o, s ≠ o → ∀ k ∈ made s, k ∉ made o

/-- What is made next goes to one party. -/
theorem Ledger.more {made : Side → List Nat} {next next' : Nat} (h : Ledger made next) (s : Side)
    (hle : next ≤ next') : Ledger (s.more (idsBetween next next') made) next' where
  nodup o := by
    by_cases ho : o = s
    · subst ho
      rw [Side.more_self]
      refine (h.nodup o).append (List.nodup_range' 1) fun k hk hnew => ?_
      exact Nat.not_lt.2 (mem_idsBetween.1 hnew).1 (h.below o k hk)
    · rw [Side.more_of_ne s _ made ho]
      exact h.nodup o
  below o k hk := by
    rcases Side.mem_more.1 hk with hold | ⟨-, hnew⟩
    · exact Nat.lt_of_lt_of_le (h.below o k hold) hle
    · exact (mem_idsBetween.1 hnew).2
  apart o u hou k hk hk' := by
    rcases Side.mem_more.1 hk with hold | ⟨ho, hnew⟩ <;>
      rcases Side.mem_more.1 hk' with hold' | ⟨hu, hnew'⟩
    · exact h.apart o u hou k hold hold'
    · -- what is new is above everything that was there
      exact Nat.not_lt.2 (mem_idsBetween.1 hnew').1 (h.below o k hold)
    · exact Nat.not_lt.2 (mem_idsBetween.1 hnew).1 (h.below u k hold')
    · exact hou (ho.trans hu.symm)

namespace Scene

section Step

variable {levels : Nat} {sc : Scene} {s : Side} {step : Step}

theorem step_of_none (h : step.operation? (sc.nodes s) (sc.values s) = none) :
    sc.step levels (s, step) = { sc with answers := s.more [none] sc.answers } := by
  simp only [Scene.step, h]

theorem step_of_some {op : Operation}
    (h : step.operation? (sc.nodes s) (sc.values s) = some op) :
    sc.step levels (s, step) =
      { bus := op.apply levels sc.bus
        nodes := s.more (idsBetween sc.bus.forest.next (op.apply levels sc.bus).forest.next) sc.nodes
        values := s.more (idsBetween sc.bus.next (op.apply levels sc.bus).next) sc.values
        answers := s.more [some (op.answer levels sc.bus)] sc.answers } := by
  simp only [Scene.step, h]

end Step

/-- **What is always true of a run**: the bus is sound, and the parties know what they have made. -/
structure Orderly (sc : Scene) : Prop where
  sound : sc.bus.Sound
  held : sc.bus.Held
  nodes : Ledger sc.nodes sc.bus.forest.next
  values : Ledger sc.values sc.bus.next

theorem Orderly.step {levels : Nat} {sc : Scene} (h : sc.Orderly) (move : Side × Step) :
    (sc.step levels move).Orderly := by
  obtain ⟨s, step⟩ := move
  cases hop : step.operation? (sc.nodes s) (sc.values s) with
  | none =>
      rw [step_of_none hop]
      exact ⟨h.sound, h.held, h.nodes, h.values⟩
  | some op =>
      have hproceeds := Bus.proceeds_apply h.sound h.held levels op
      obtain ⟨hforest, hnext⟩ := Bus.next_apply h.sound h.held levels op
      rw [step_of_some hop]
      exact ⟨hproceeds.sound, hproceeds.held,
        h.nodes.more s (hforest ▸ Nat.le_add_right _ _),
        h.values.more s (hnext ▸ Nat.le_add_right _ _)⟩

/-- A step adds to what its party has. -/
theorem prefix_step (levels : Nat) (sc : Scene) (move : Side × Step) (s : Side) :
    sc.nodes s <+: (sc.step levels move).nodes s ∧
      sc.values s <+: (sc.step levels move).values s := by
  obtain ⟨o, step⟩ := move
  have hmore : ∀ {α : Type} (new : List α) (had : Side → List α), had s <+: o.more new had s := by
    intro α new had
    by_cases hs : s = o
    · subst hs
      rw [Side.more_self]
      exact List.prefix_append _ _
    · rw [Side.more_of_ne o new had hs]
  cases hop : step.operation? (sc.nodes o) (sc.values o) with
  | none =>
      rw [step_of_none hop]
      exact ⟨List.prefix_refl _, List.prefix_refl _⟩
  | some op =>
      rw [step_of_some hop]
      exact ⟨hmore _ _, hmore _ _⟩

/-- **A longer run goes on from what there is.** -/
theorem prefix_run (levels : Nat) (l : Loopback) {front moves : List (Side × Step)}
    (h : front <+: moves) (s : Side) :
    (run levels l front).nodes s <+: (run levels l moves).nodes s ∧
      (run levels l front).values s <+: (run levels l moves).values s := by
  induction moves using List.reverseRecOn with
  | nil =>
      obtain rfl := List.prefix_nil.1 h
      exact ⟨List.prefix_refl _, List.prefix_refl _⟩
  | append_singleton moves move ih =>
      rcases List.prefix_concat_iff.1 h with rfl | hfront
      · exact ⟨List.prefix_refl _, List.prefix_refl _⟩
      · rw [run_concat]
        obtain ⟨hnodes, hvalues⟩ := ih hfront
        obtain ⟨hnodes', hvalues'⟩ := prefix_step levels (run levels l moves) move s
        exact ⟨hnodes.trans hnodes', hvalues.trans hvalues'⟩

section Run

variable (levels : Nat) {l : Loopback} (hl : l.Orderly)

include hl

theorem orderly_opened : (opened l).Orderly where
  sound := by
    refine Bus.sound_empty.newTransport ?_ (fun r h => nomatch h)
    rintro _ ⟨⟩
    exact hl
  held := ⟨fun hn => (nomatch hn), fun hi => (nomatch hi)⟩
  nodes := ⟨fun _ => List.nodup_nil, fun _ _ h => (nomatch h), fun _ _ _ _ h => (nomatch h)⟩
  values := ⟨fun _ => List.nodup_nil, fun _ _ h => (nomatch h), fun _ _ _ _ h => (nomatch h)⟩

theorem orderly_run (moves : List (Side × Step)) : (run levels l moves).Orderly := by
  induction moves using List.reverseRecOn with
  | nil => exact orderly_opened hl
  | append_singleton moves move ih =>
      rw [run_concat]
      exact ih.step move

/-- **A party that is alone has made everything that there is.** -/
theorem alone_run {s : Side} {moves : List (Side × Step)} (h : ∀ move ∈ moves, move.1 = s) :
    (run levels l moves).nodes s = idsBetween 0 (run levels l moves).bus.forest.next ∧
      1 ≤ (run levels l moves).bus.next ∧
      (run levels l moves).values s = idsBetween 1 (run levels l moves).bus.next := by
  induction moves using List.reverseRecOn with
  | nil => exact ⟨rfl, Nat.le_refl 1, rfl⟩
  | append_singleton moves move ih =>
      obtain ⟨hnodes, hpos, hvalues⟩ := ih fun m hm => h m (List.mem_append_left _ hm)
      obtain ⟨o, step⟩ := move
      obtain rfl : o = s := h _ (List.mem_append_right _ List.mem_cons_self)
      have horderly := orderly_run levels hl moves
      rw [run_concat]
      generalize run levels l moves = sc at hnodes hpos hvalues horderly ⊢
      cases hop : step.operation? (sc.nodes o) (sc.values o) with
      | none =>
          rw [step_of_none hop]
          exact ⟨hnodes, hpos, hvalues⟩
      | some op =>
          obtain ⟨hforest, hnext⟩ := Bus.next_apply horderly.sound horderly.held levels op
          -- what is new goes on from what there was
          have hle := hforest ▸ Nat.le_add_right sc.bus.forest.next (op.nodesMade sc.bus)
          have hle' := hnext ▸ Nat.le_add_right sc.bus.next (op.othersMade sc.bus)
          rw [step_of_some hop]
          refine ⟨(Side.more_self _ _ _).trans ?_, Nat.le_trans hpos hle',
            (Side.more_self _ _ _).trans ?_⟩
          · rw [hnodes, idsBetween_append (Nat.zero_le _) hle]
          · rw [hvalues, idsBetween_append hpos hle']

end Run

end Scene

end ObjectBus
