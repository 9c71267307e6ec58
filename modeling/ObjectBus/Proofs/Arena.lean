import Mathlib.Data.List.Nodup
import ObjectBus.Proofs.Effect.Trees

/-!
# The arena of nodes

All nodes stand in one arena, under ids that count up. Every link is stored twice, with the child
and with the parent, and loops over the tree end only because the two sides agree.
`Bus.Consistent` says what is always true of the arena, and `arena_consistent` that it is true after
every run: no operation leaves a dangling link, lists a child twice, or binds a node twice. Ids are
never used again, so whoever kept an id of a node that is gone will not meet another node there.

In a run one operation is over before the next begins. A transport may call back while a node is
being destroyed; if it lets a neighbour of that node go meanwhile, the node has noted its parent and
its children already, and their links are not in step any more. Such callbacks are no operations of
a run.
-/

set_option autoImplicit false

namespace ObjectBus

namespace Forest

/-- The node that is a number of parent links above another. -/
def climb (f : Forest) : Nat → NodeId → Option NodeId
  | 0, n => some n
  | links + 1, n => ((f.get? n).bind (·.parent)).bind (f.climb links)

/-- **Going up ends at a root.** -/
theorem WellFormed.exists_root {f : Forest} (hf : f.WellFormed) {n : NodeId} {x : Node}
    (hn : f.get? n = some x) :
    ∃ links r y, f.climb links n = some r ∧ f.get? r = some y ∧ y.parent = none := by
  induction n using Nat.strongRecOn generalizing x with
  | _ n ih =>
      cases hp : x.parent with
      | none => exact ⟨0, n, x, rfl, hn, hp⟩
      | some p =>
          -- the parent is older
          obtain ⟨hlt, y, hy, -⟩ := hf.parent hn hp
          obtain ⟨links, r, z, hclimb, hr, hroot⟩ := ih p hlt hy
          refine ⟨links + 1, r, z, ?_, hr, hroot⟩
          rw [climb, hn, Option.bind_some, hp, Option.bind_some, hclimb]

/-! ## What a step of the forest keeps -/

/-- **No node is bound to a transport twice.** -/
def BoundOnce (f : Forest) : Prop := ∀ {n x}, f.get? n = some x → x.servers.Nodup

namespace Evolves

variable {f f' : Forest} (hf : f.WellFormed) (h : f.Evolves f')

include h

theorem next_le : f.next ≤ f'.next := by
  cases h with
  | same h => exact Nat.le_of_eq h.next.symm
  | grown name parent servers hp hs h =>
      rw [h, next_grow]
      exact Nat.le_succ _
  | uprooted hn h => exact Nat.le_of_eq (by rw [h, next_uproot])

include hf

/-- **A step brings no id back.** -/
theorem exists_of_lt {n : NodeId} (hlt : n < f.next) (hn : (f'.get? n).isSome) :
    (f.get? n).isSome := by
  obtain ⟨x', hx'⟩ := Option.isSome_iff_exists.1 hn
  cases h with
  | same h =>
      obtain ⟨x, hx, -⟩ := h.exists_node hx'
      exact Option.isSome_iff_exists.2 ⟨x, hx⟩
  | grown name parent servers hp hs h =>
      rw [h, get?_grow hf name hp servers, if_neg (Nat.ne_of_lt hlt)] at hx'
      obtain ⟨x, hx, -⟩ := Option.map_eq_some_iff.1 hx'
      exact Option.isSome_iff_exists.2 ⟨x, hx⟩
  | uprooted hm h =>
      rw [h, get?_uproot hf hm] at hx'
      split at hx'
      · cases hx'
      · obtain ⟨x, hx, -⟩ := Option.map_eq_some_iff.1 hx'
        exact Option.isSome_iff_exists.2 ⟨x, hx⟩

theorem boundOnce (hbound : f.BoundOnce) : f'.BoundOnce := by
  intro n x' hx'
  cases h with
  | same h =>
      obtain ⟨x, hx, hsettled⟩ := h.exists_node hx'
      exact hsettled.servers (hbound hx)
  | grown name parent servers hp hs h =>
      rw [h, get?_grow hf name hp servers] at hx'
      split at hx'
      · -- the new node is bound to transports of its parent
        cases hx'
        rcases hs with rfl | ⟨p, y, hy, hsub⟩
        · exact List.nodup_nil
        · exact (hbound hy).sublist hsub
      · obtain ⟨x, hx, rfl⟩ := Option.map_eq_some_iff.1 hx'
        have hnodup := hbound hx
        split <;> exact hnodup
  | uprooted hm h =>
      rw [h, get?_uproot hf hm] at hx'
      split at hx'
      · cases hx'
      · obtain ⟨x, hx, rfl⟩ := Option.map_eq_some_iff.1 hx'
        have hnodup := hbound hx
        exact hnodup

end Evolves

end Forest

namespace Bus

/-! ## Runs -/

/-- **A bus that a run comes to** after `b`, however long it goes on. -/
def Leads (levels : Nat) (b : Bus) : Bus → Prop := b.LeadsBy levels fun _ _ => True

/-- **Ids are given out once**: those given out are below the next one for ever, and none that is not
in use comes back. -/
theorem Leads.ids {levels : Nat} {b b' : Bus} (h : b.Leads levels b') (hb : b.Reachable levels) :
    b.forest.next ≤ b'.forest.next ∧
      ∀ n, n < b.forest.next → (b'.node? n).isSome → (b.node? n).isSome := by
  induction h with
  | refl => exact ⟨Nat.le_refl _, fun _ _ hn => hn⟩
  | @step c op hc _ ih =>
      obtain ⟨hsound, hheld⟩ := (hc.reachable hb).sound_held
      have hevolves := evolves_apply hsound hheld levels op
      refine ⟨Nat.le_trans ih.1 hevolves.next_le, fun n hlt hn => ih.2 n hlt ?_⟩
      exact hevolves.exists_of_lt hsound.forest (Nat.lt_of_lt_of_le hlt ih.1) hn
  | elsewhere _ hu ih =>
      refine ⟨hu.forest ▸ ih.1, fun n hlt hn => ih.2 n hlt ?_⟩
      rwa [hu.node?] at hn

theorem Reachable.boundOnce {levels : Nat} {b : Bus} (hb : b.Reachable levels) :
    b.forest.BoundOnce := by
  induction hb with
  | empty => exact fun h => nomatch h
  | step op hb _ ih =>
      obtain ⟨hsound, hheld⟩ := Reachable.sound_held hb
      exact (evolves_apply hsound hheld levels op).boundOnce hsound.forest ih
  | elsewhere _ hu ih => exact hu.forest ▸ ih

/-! ## The invariant -/

/-- **A consistent arena.** -/
structure Consistent (b : Bus) : Prop where
  /-- There is an entry for each live node, and no other. -/
  live : ∀ n, b.isLiveNode n = true ↔ n ∈ Entries.keys b.forest.nodes
  once : (Entries.keys b.forest.nodes).Nodup
  given : ∀ n ∈ Entries.keys b.forest.nodes, n < b.forest.next
  /-- A node names a parent if and only if the parent is there and lists it. -/
  linked : ∀ c x p, b.node? c = some x →
    (x.parent = some p ↔ ∃ y, b.node? p = some y ∧ c ∈ y.children)
  /-- What is listed is listed once, and it is there. -/
  listed : ∀ p y c, b.node? p = some y → c ∈ y.children →
    y.children.count c = 1 ∧ (b.node? c).isSome
  roots : ∀ r x, b.node? r = some x → x.parent = none →
    ∀ p y, b.node? p = some y → r ∉ y.children
  rooted : ∀ n x, b.node? n = some x → ∃ links r y,
    b.forest.climb links n = some r ∧ b.node? r = some y ∧ y.parent = none
  bound : ∀ n x, b.node? n = some x → x.servers.Nodup
  /-- A name leads to a value of that name, as long as the value is there. -/
  named : ∀ n x k i v, b.node? n = some x → Entries.get? k x.interfaces = some i →
    b.interface? i = some v → v.interface.name = k

theorem mem_keys_nodes {b : Bus} {n : NodeId} :
    n ∈ Entries.keys b.forest.nodes ↔ ∃ x, b.node? n = some x := Entries.mem_keys_iff

theorem Sound.consistent {b : Bus} (hb : b.Sound) (hh : b.Held) (hbound : b.forest.BoundOnce) :
    b.Consistent where
  live n := by
    rw [mem_keys_nodes]
    constructor
    · intro hn
      obtain ⟨x, hx, -⟩ := exists_of_isLiveNode hn
      exact ⟨x, hx⟩
    · rintro ⟨x, hx⟩
      exact hh.isLiveNode hx
  once := hb.forest.sorted.nodup
  given n hn := by
    obtain ⟨x, hx⟩ := mem_keys_nodes.1 hn
    exact hb.forest.fresh hx
  linked c x p hc := by
    constructor
    · intro hp
      exact (hb.forest.parent hc hp).2
    · rintro ⟨y, hy, hmem⟩
      exact (hb.forest.mem_children_iff hy hc).1 hmem
  listed p y c hy hmem := by
    obtain ⟨x, hx, -⟩ := hb.forest.child hy hmem
    exact ⟨List.count_eq_one_of_mem (hb.forest.nodup hy) hmem,
      Option.isSome_iff_exists.2 ⟨x, hx⟩⟩
  roots r x hr hroot p y hy hmem := by
    rw [(hb.forest.mem_children_iff hy hr).1 hmem] at hroot
    cases hroot
  rooted n x hn := hb.forest.exists_root hn
  bound n x hn := hbound hn
  named n x k i v hn hk hi := (hb.entry hn hk hi).1

/-- **The arena is consistent after every run**, and no id is ever used twice: however the run goes on,
later ids are above all that were given out, and an id that is not in use any more stays so. -/
theorem arena_consistent {levels : Nat} {b : Bus} (hb : b.Reachable levels) :
    b.Consistent ∧ ∀ b', b.Leads levels b' → b.forest.next ≤ b'.forest.next ∧
      ∀ n, n < b.forest.next → (b'.node? n).isSome → (b.node? n).isSome := by
  obtain ⟨hsound, hheld⟩ := hb.sound_held
  exact ⟨hsound.consistent hheld (Reachable.boundOnce hb), fun b' hb' => hb'.ids hb⟩

/-- A node between two others is destroyed, and then the root: the last one is a root now, and the
ids of the others stay free when there is another node. -/
theorem arena_consistent_after_uprooting :
    let b := Bus.after 0 [.openRecorder "t" "/", .makeRoot "r", .bind 0 0, .makeChild 0 "x",
      .makeChild 1 "d", .bind 2 0, .dropNode 1, .dropNode 0]
    let b' := (Operation.makeRoot "r").apply 0 b
    b.Consistent ∧ (Entries.keys b.forest.nodes) = [2] ∧
      (b.node? 2).map (fun x => (x.name, x.parent, x.servers)) = some ("r/d", none, [0]) ∧
      Entries.keys b'.forest.nodes = [2, 3] ∧ b'.node? 0 = none := by
  intro b b'
  have hb : b.Reachable 0 := reaches_after fun _ _ _ => trivial
  have hids := (arena_consistent hb).2 b' (.step _ .refl trivial)
  refine ⟨(arena_consistent hb).1, by decide +kernel, by decide +kernel, by decide +kernel, ?_⟩
  refine Option.not_isSome_iff_eq_none.1 fun hback => ?_
  have hgone : (b.node? 0).isSome = false := by decide +kernel
  have hthere := hids.2 0 (by decide +kernel) hback
  rw [hgone] at hthere
  cases hthere

end Bus

end ObjectBus
