import ObjectBus.Proofs.Arena
import ObjectBus.Proofs.Callbacks.Tending

/-!
# Descendants, whatever was destroyed

Destroying a node starts with the list of what is below it, and whoever is missing there stays
registered at an old address. The list comes from a loop with a stack that remembers nothing of where
it has been, so it needs a forest without cycles and without an id that is listed twice.

There is one after every run, and after every session too, whatever transports do when they call back
(`Session.tended_busAfter`): `descendants_enumerated`. What callbacks can do is to leave the id of a
node that is gone in a list. Then this id comes out as well, and what was below that node does not; it
has no parent that is there either.
-/

set_option autoImplicit false

namespace ObjectBus

namespace Forest

/-- Below a node is what comes to it by climbing. -/
theorem below_iff_climb {f : Forest} {n m : NodeId} :
    f.Below n m ↔ ∃ links, f.climb (links + 1) m = some n := by
  constructor
  · intro h
    induction h with
    | child hy hp => exact ⟨0, by simp [climb, hy, hp]⟩
    | step _ hy hp ih =>
        obtain ⟨links, hlinks⟩ := ih
        exact ⟨links + 1, by rw [climb, hy, Option.bind_some, hp, Option.bind_some, hlinks]⟩
  · rintro ⟨links, hlinks⟩
    induction links generalizing m with
    | zero =>
        obtain ⟨p, hp, hpn⟩ := Option.bind_eq_some_iff.1 hlinks
        obtain ⟨y, hy, hp⟩ := Option.bind_eq_some_iff.1 hp
        exact Below.child hy (hp.trans hpn)
    | succ links ih =>
        obtain ⟨p, hp, hup⟩ := Option.bind_eq_some_iff.1 hlinks
        obtain ⟨y, hy, hp⟩ := Option.bind_eq_some_iff.1 hp
        exact Below.step (ih hup) hy hp

/-- **Of the nodes that are there, those below a node are its descendants.** -/
theorem Coherent.mem_descendants_iff_below {f : Forest} (hf : f.Coherent) {n m : NodeId}
    (hn : (f.get? n).isSome) (hm : (f.get? m).isSome) : m ∈ f.descendants n ↔ f.Below n m := by
  rw [hf.mem_descendants_iff]
  constructor
  · intro h
    induction h with
    | single h =>
        obtain ⟨x, hx⟩ := Option.isSome_iff_exists.1 hm
        exact Below.child hx ((hf.agree hn hx).1 h)
    | tail _ h ih =>
        obtain ⟨x, hx⟩ := Option.isSome_iff_exists.1 hm
        exact Below.step (ih h.isSome) hx ((hf.agree h.isSome hx).1 h)
  · intro h
    induction h with
    | child hx hp => exact Relation.TransGen.single ((hf.agree hn hx).2 hp)
    | step hb hx hp ih =>
        obtain ⟨y, hy⟩ := hb.exists_node
        have hthere := Option.isSome_of_eq_some hy
        exact (ih hthere).tail ((hf.agree hthere hx).2 hp)

end Forest

namespace Bus

theorem coherent_of_reaches {levels : Nat} {b : Bus}
    (hb : b.Reachable levels ∨ ∃ commands, Session.busAfter levels commands = b) :
    b.forest.Coherent := by
  rcases hb with hb | ⟨commands, rfl⟩
  · exact hb.sound_held.1.forest.coherent
  · exact (Session.tended_busAfter levels commands).coherent

/-- **The descendants of a node are enumerated**, after every run, and after every session, in which
transports may call back whenever they are called. The loop ends with its stack empty, after one turn
for each id that comes out, and none comes out twice. Of the nodes that are there, those come out that
are strictly below the node: climbing from them, one link or more, leads to it. What comes out is what
lists lead to, and after a run this is there: no other id comes out. -/
theorem descendants_enumerated {levels : Nat} {b : Bus}
    (hb : b.Reachable levels ∨ ∃ commands, Session.busAfter levels commands = b) {n : NodeId}
    {x : Node} (hn : b.node? n = some x) :
    b.forest.turn^[(b.forest.descendants n).length] (x.children.reverse, []) =
        ([], b.forest.descendants n) ∧
      (b.forest.descendants n).Nodup ∧
      (∀ m, (b.node? m).isSome →
        (m ∈ b.forest.descendants n ↔ ∃ links, b.forest.climb (links + 1) m = some n)) ∧
      (∀ m, m ∈ b.forest.descendants n ↔ Relation.TransGen b.forest.Lists n m) ∧
      (b.Reachable levels → ∀ m ∈ b.forest.descendants n, (b.node? m).isSome) := by
  have hf := coherent_of_reaches hb
  have hthere : (b.forest.get? n).isSome := Option.isSome_of_eq_some hn
  refine ⟨?_, hf.nodup_descendants n, fun m hm => ?_, fun m => hf.mem_descendants_iff n,
    fun hrun m hm => ?_⟩
  · have hturns := hf.turns_descendants n
    rwa [Forest.childrenOf_eq hn] at hturns
  · exact (hf.mem_descendants_iff_below hthere hm).trans Forest.below_iff_climb
  · have hwell := hrun.sound_held.1.forest
    obtain ⟨y, hy⟩ := ((Forest.mem_descendants_iff hwell).1 hm).exists_node
    exact Option.isSome_of_eq_some hy

/-- A tree that lost a node in its middle: what was below it comes out below the root, the last child
first. -/
def shortened : Bus :=
  Bus.after 0 [.makeRoot "r", .makeChild 0 "a", .makeChild 1 "b", .makeChild 1 "c",
    .makeChild 2 "d", .makeChild 3 "e", .dropNode 1]

/-- A tree in which a node and its parent went at once: a transport let the parent go, when it was
called for the node. -/
def parted : Bus :=
  Session.busAfter 3 [.recorder "t" "/", .root "r" "r", .child "g" "r" "g", .child "p" "g" "p",
    .child "x" "p" "x", .child "c" "x" "c", .child "d" "c" "d", .bind "x" "t",
    .manage "x" (some "lamp"), .hook "t" .manage none [.dropNode "p"], .dropNode "x"]

/-- In the one tree all comes out that is below the root. In the other one an id comes out that is
gone, and all that is there below the root. -/
theorem descendants_enumerated_past_a_gap :
    (shortened.forest.descendants 0 = [3, 5, 2, 4] ∧ (shortened.forest.descendants 0).Nodup ∧
      (∃ links, shortened.forest.climb (links + 1) 5 = some 0) ∧
      ∀ m ∈ shortened.forest.descendants 0, (shortened.node? m).isSome) ∧
    parted.forest.descendants 0 = [1, 3] ∧ parted.node? 3 = none ∧
      (∃ links, parted.forest.climb (links + 1) 1 = some 0) ∧
      parted.forest.descendants 4 = [5] ∧ ¬∃ links, parted.forest.climb (links + 1) 4 = some 0 := by
  have hrun : shortened.Reachable 0 := reaches_after fun _ _ _ => trivial
  have hsession : ∃ commands, Session.busAfter 3 commands = parted := ⟨_, rfl⟩
  have hthere : ∀ {b : Bus} {n : NodeId}, (b.node? n).isSome → ∃ x, b.node? n = some x :=
    Option.isSome_iff_exists.1
  obtain ⟨r, hr⟩ := hthere (show (shortened.node? 0).isSome by decide +kernel)
  obtain ⟨q, hq⟩ := hthere (show (parted.node? 0).isSome by decide +kernel)
  obtain ⟨-, honce, hbelow, -, hall⟩ := descendants_enumerated (Or.inl hrun) hr
  obtain ⟨-, -, hbelow', -⟩ := descendants_enumerated (Or.inr hsession) hq
  exact ⟨⟨by decide +kernel, honce, (hbelow 5 (by decide +kernel)).1 (by decide +kernel),
    hall hrun⟩, by decide +kernel, by decide +kernel,
    (hbelow' 1 (by decide +kernel)).1 (by decide +kernel), by decide +kernel,
    fun h => absurd ((hbelow' 4 (by decide +kernel)).2 h) (by decide +kernel)⟩

end Bus

end ObjectBus
