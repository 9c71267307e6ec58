import Mathlib.Data.List.Perm.Subperm
import Mathlib.Logic.Function.Iterate
import Mathlib.Logic.Relation
import ObjectBus.Proofs.Forest.Links

/-!
# The descendants of a node

Destroying a node works on the list of all nodes below it, which is computed by sweeping the links
downwards: what is on top of a stack is taken off, and what it lists is put there instead. The sweep
remembers nothing of where it has been. It needs no memory where each id is listed once, and by an
older one (`Forest.Layered`): then no id comes to the stack twice, and the sweep ends because the
stack is empty (`Layered.turns`), long before its steps are used up. What came out are the ids that
are listed below the node, each once (`Layered.mem_descendants_iff`, `Layered.nodup_descendants`).

In a well-formed forest the same nodes are met from the other end: `Forest.Below f x m` says that `x`
is on the way from `m` up to its root (`mem_descendants_iff`).
-/

set_option autoImplicit false

namespace ObjectBus

namespace Forest

/-- The ids that a node lists as its children; a node that is not there lists none. -/
def childrenOf (f : Forest) (n : NodeId) : List NodeId :=
  match f.get? n with
  | none => []
  | some x => x.children

/-- **One id lists another** as its child. -/
def Lists (f : Forest) (p c : NodeId) : Prop := c ∈ f.childrenOf p

theorem childrenOf_eq {f : Forest} {n : NodeId} {x : Node} (hn : f.get? n = some x) :
    f.childrenOf n = x.children := by
  rw [childrenOf, hn]

theorem lists_iff {f : Forest} {p c : NodeId} :
    f.Lists p c ↔ ∃ y, f.get? p = some y ∧ c ∈ y.children := by
  unfold Lists childrenOf
  cases f.get? p <;> simp

/-- **Layered forests**: each id is listed once, and by an older one. Nothing is said of which ids are
there. -/
structure Layered (f : Forest) : Prop where
  lt : ∀ {p c}, f.Lists p c → p < c
  once : ∀ {p q c}, f.Lists p c → f.Lists q c → p = q
  nodup : ∀ {p y}, f.get? p = some y → y.children.Nodup

theorem Layered.nodup_childrenOf {f : Forest} (hf : f.Layered) (p : NodeId) :
    (f.childrenOf p).Nodup := by
  unfold childrenOf
  cases hp : f.get? p with
  | none => exact List.nodup_nil
  | some y => exact hf.nodup hp

/-- What is listed below an id is younger. -/
theorem Layered.lt_of_transGen {f : Forest} (hf : f.Layered) {x m : NodeId}
    (h : Relation.TransGen f.Lists x m) : x < m := by
  induction h with
  | single h => exact hf.lt h
  | tail _ h ih => exact Nat.lt_trans ih (hf.lt h)

/-! ## Links -/

/-- All ends of links, upper node by upper node. -/
def linkEnds (f : Forest) : List NodeId := f.nodes.flatMap fun e => e.2.children

theorem length_linkEnds (f : Forest) : f.linkEnds.length = f.linkCount := by
  unfold linkEnds linkCount
  induction f.nodes with
  | nil => rfl
  | cons e es ih => simp [ih]

theorem Lists.mem_linkEnds {f : Forest} {p c : NodeId} (h : f.Lists p c) : c ∈ f.linkEnds := by
  obtain ⟨y, hy, hc⟩ := lists_iff.1 h
  exact List.mem_flatMap.2 ⟨(p, y), Entries.mem_of_get? hy, hc⟩

theorem mem_linkEnds_of_transGen {f : Forest} {x m : NodeId}
    (h : Relation.TransGen f.Lists x m) : m ∈ f.linkEnds := by
  obtain ⟨p, -, h⟩ := Relation.TransGen.tail'_iff.1 h
  exact h.mem_linkEnds

/-! ## The sweep -/

theorem sweep_nil (f : Forest) (steps : Nat) : f.sweep steps [] = [] := by
  cases steps <;> rfl

theorem sweep_cons (f : Forest) (steps : Nat) (n : NodeId) (stack : List NodeId) :
    f.sweep (steps + 1) (n :: stack) =
      n :: f.sweep steps ((f.childrenOf n).reverse ++ stack) := by
  rw [sweep, childrenOf]
  cases f.get? n <;> rfl

theorem descendants_eq (f : Forest) (n : NodeId) :
    f.descendants n = f.sweep f.linkCount (f.childrenOf n).reverse := by
  rw [descendants, childrenOf]
  cases f.get? n with
  | none => exact (f.sweep_nil _).symm
  | some x => rfl

/-- **One turn of the loop** that the sweep stands for, without a bound: the top of the stack comes
out, and what it lists comes on the stack, the last one on top. Once the stack is empty the loop has
ended. -/
def turn (f : Forest) : List NodeId × List NodeId → List NodeId × List NodeId
  | ([], out) => ([], out)
  | (n :: stack, out) => ((f.childrenOf n).reverse ++ stack, out ++ [n])

/-- **Where a sweep below `x` stands**: `seen` are the ids that were taken from the stack so far.
Every id that was seen or is on the stack is listed below `x`, and came there when the one that lists
it was taken. -/
structure Sweeping (f : Forest) (x : NodeId) (seen stack : List NodeId) : Prop where
  nodup : (seen ++ stack).Nodup
  below : ∀ m ∈ seen ++ stack, Relation.TransGen f.Lists x m
  entered : ∀ m ∈ seen ++ stack, ∃ p, f.Lists p m ∧ (p = x ∨ p ∈ seen)
  started : ∀ c, f.Lists x c → c ∈ seen ++ stack
  closed : ∀ m ∈ seen, ∀ c, f.Lists m c → c ∈ seen ++ stack

namespace Sweeping

variable {f : Forest} {x : NodeId} {seen stack : List NodeId}

theorem length_le (h : f.Sweeping x seen stack) : seen.length + stack.length ≤ f.linkCount := by
  rw [← length_linkEnds, ← List.length_append]
  exact (h.nodup.subperm fun m hm => mem_linkEnds_of_transGen (h.below m hm)).length_le

/-- Once there are as many seen as there are links, nothing is left on the stack. -/
theorem stack_eq_nil (h : f.Sweeping x seen stack) (hlinks : f.linkCount ≤ seen.length) :
    stack = [] := by
  have hlen := h.length_le
  exact List.length_eq_zero_iff.1 (by omega)

/-- The sweep for the descendants starts at the children. -/
theorem start (hf : f.Layered) (x : NodeId) : f.Sweeping x [] (f.childrenOf x).reverse where
  nodup := (List.reverse_perm _).nodup_iff.2 (hf.nodup_childrenOf x)
  below _ hm := Relation.TransGen.single (List.mem_reverse.1 hm)
  entered _ hm := ⟨x, List.mem_reverse.1 hm, Or.inl rfl⟩
  started _ hc := List.mem_reverse.2 hc
  closed _ hm := absurd hm List.not_mem_nil

/-- **One step**: the top of the stack was seen, and what it lists is on the stack. -/
theorem step (hf : f.Layered) {n : NodeId} (h : f.Sweeping x seen (n :: stack)) :
    f.Sweeping x (n :: seen) ((f.childrenOf n).reverse ++ stack) := by
  have hn : n ∈ seen ++ n :: stack := by simp
  have hnodup := List.perm_middle.nodup_iff.1 h.nodup
  obtain ⟨hnew, hrest⟩ := List.nodup_cons.1 hnodup
  have hxn := hf.lt_of_transGen (h.below n hn)
  -- what `n` lists is listed by no other, and `n` was not seen before
  have hfresh : ∀ c, f.Lists n c → c ∉ n :: (seen ++ stack) := by
    intro c hc hmem
    have hmem' : c ∈ seen ++ n :: stack := by
      simp only [List.mem_cons, List.mem_append] at hmem ⊢
      tauto
    obtain ⟨p, hp, hpx | hps⟩ := h.entered c hmem'
    · exact Nat.ne_of_gt hxn ((hf.once hc hp).trans hpx)
    · exact hnew (List.mem_append_left _ (hf.once hc hp ▸ hps))
  have hperm : ((n :: seen) ++ ((f.childrenOf n).reverse ++ stack)).Perm
      (f.childrenOf n ++ (n :: (seen ++ stack))) := by
    refine List.Perm.trans ?_ List.perm_append_comm
    simp only [List.cons_append, List.append_assoc]
    refine List.Perm.cons _ (List.Perm.append_left _ ?_)
    exact (List.Perm.append_right _ (List.reverse_perm _)).trans List.perm_append_comm
  -- what is seen or on the stack now was so before, or `n` lists it
  have hsplit : ∀ {m}, m ∈ (n :: seen) ++ ((f.childrenOf n).reverse ++ stack) ↔
      f.Lists n m ∨ m ∈ seen ++ n :: stack := by
    intro m
    rw [hperm.mem_iff]
    simp only [Lists, List.mem_append, List.mem_cons]
    tauto
  refine ⟨?_, ?_, ?_, fun c hc => hsplit.2 (Or.inr (h.started c hc)), ?_⟩
  · rw [hperm.nodup_iff, List.nodup_append]
    exact ⟨hf.nodup_childrenOf n, hnodup, fun a ha b hb hab => hfresh a ha (hab ▸ hb)⟩
  · intro m hm
    rcases hsplit.1 hm with hc | hm
    · exact (h.below n hn).tail hc
    · exact h.below m hm
  · intro m hm
    rcases hsplit.1 hm with hc | hm
    · exact ⟨n, hc, Or.inr List.mem_cons_self⟩
    · obtain ⟨p, hp, hpx | hps⟩ := h.entered m hm
      · exact ⟨p, hp, Or.inl hpx⟩
      · exact ⟨p, hp, Or.inr (List.mem_cons_of_mem _ hps)⟩
  · intro m hm c hc
    rcases List.mem_cons.1 hm with rfl | hm
    · exact hsplit.2 (Or.inl hc)
    · exact hsplit.2 (Or.inr (h.closed m hm c hc))

/-- **A sweep ends because its stack is empty.** The induction is on the steps; where none are left,
all links are used up. -/
theorem finish (hf : f.Layered) (steps : Nat) (h : f.Sweeping x seen stack)
    (hsteps : f.linkCount ≤ steps + seen.length) :
    f.Sweeping x ((f.sweep steps stack).reverse ++ seen) [] := by
  induction steps generalizing seen stack with
  | zero =>
      obtain rfl := h.stack_eq_nil (by omega)
      exact h
  | succ steps ih =>
      cases stack with
      | nil => exact h
      | cons n stack =>
          have hrest := ih (h.step hf) (by simp only [List.length_cons]; omega)
          rw [sweep_cons, List.reverse_cons, List.append_assoc]
          exact hrest

/-- **The loop ends** after as many turns as there are ids that come out of it. -/
theorem turns (hf : f.Layered) (steps : Nat) (h : f.Sweeping x seen stack)
    (hsteps : f.linkCount ≤ steps + seen.length) (out : List NodeId) :
    f.turn^[(f.sweep steps stack).length] (stack, out) = ([], out ++ f.sweep steps stack) := by
  induction steps generalizing seen stack out with
  | zero =>
      obtain rfl := h.stack_eq_nil (by omega)
      simp [sweep]
  | succ steps ih =>
      cases stack with
      | nil => simp [sweep]
      | cons n stack =>
          have hrest := ih (h.step hf) (by simp only [List.length_cons]; omega) (out ++ [n])
          rw [sweep_cons, List.length_cons, Function.iterate_succ_apply, turn, hrest,
            List.append_assoc, List.singleton_append]

end Sweeping

/-! ## What comes out -/

namespace Layered

variable {f : Forest} (hf : f.Layered) (x : NodeId)

include hf

/-- All that is listed below a node has been seen when the sweep has ended. -/
theorem sweeping_descendants : f.Sweeping x (f.descendants x).reverse [] := by
  have hend := (Sweeping.start hf x).finish hf f.linkCount (Nat.le_add_right _ _)
  rwa [List.append_nil, ← descendants_eq] at hend

/-- **The descendants of a node are the ids that are listed below it.** -/
theorem mem_descendants_iff {m : NodeId} :
    m ∈ f.descendants x ↔ Relation.TransGen f.Lists x m := by
  have hend := hf.sweeping_descendants x
  rw [← List.mem_reverse]
  constructor
  · intro hm
    exact hend.below m (List.mem_append_left _ hm)
  · intro h
    induction h with
    | single h => simpa using hend.started _ h
    | tail _ h ih => simpa using hend.closed _ ih _ h

/-- **Each of them is listed once.** -/
theorem nodup_descendants : (f.descendants x).Nodup := by
  have hend := (hf.sweeping_descendants x).nodup
  rwa [List.append_nil, (List.reverse_perm _).nodup_iff] at hend

/-- **The loop for the descendants ends**, after a turn for each of them. -/
theorem turns_descendants : f.turn^[(f.descendants x).length] ((f.childrenOf x).reverse, []) =
    ([], f.descendants x) := by
  have hend := (Sweeping.start hf x).turns hf f.linkCount (Nat.le_add_right _ _) []
  rwa [← descendants_eq, List.nil_append] at hend

end Layered

/-! ## Well-formed forests -/

/-- **The nodes below `x`**: its children, their children, and so on. -/
inductive Below (f : Forest) (x : NodeId) : NodeId → Prop
  | child {c : NodeId} {y : Node} : f.get? c = some y → y.parent = some x → Below f x c
  | step {c p : NodeId} {y : Node} : Below f x p → f.get? c = some y → y.parent = some p →
      Below f x c

theorem Below.exists_node {f : Forest} {x m : NodeId} (h : f.Below x m) :
    ∃ y, f.get? m = some y := by
  cases h with
  | child hy _ => exact ⟨_, hy⟩
  | step _ hy _ => exact ⟨_, hy⟩

theorem Below.lt {f : Forest} (hf : f.WellFormed) {x m : NodeId} (h : f.Below x m) : x < m := by
  induction h with
  | child hy hp => exact (hf.parent hy hp).1
  | step _ hy hp ih => exact Nat.lt_trans ih (hf.parent hy hp).1

/-- What is not below a node has its parent there neither. -/
theorem not_below_parent {f : Forest} {x m p : NodeId} {y : Node} (h : ¬f.Below x m)
    (hy : f.get? m = some y) (hp : y.parent = some p) : p ≠ x ∧ ¬f.Below x p :=
  ⟨fun hpx => h (Below.child hy (hpx ▸ hp)), fun hb => h (Below.step hb hy hp)⟩

section WellFormed

variable {f : Forest} (hf : f.WellFormed)

include hf

theorem WellFormed.lists_iff {p c : NodeId} :
    f.Lists p c ↔ ∃ y, f.get? c = some y ∧ y.parent = some p := by
  rw [Forest.lists_iff]
  constructor
  · rintro ⟨y, hy, hc⟩
    exact hf.child hy hc
  · rintro ⟨x, hx, hp⟩
    exact (hf.parent hx hp).2

theorem WellFormed.layered : f.Layered where
  lt h := by
    obtain ⟨y, hy, hp⟩ := hf.lists_iff.1 h
    exact (hf.parent hy hp).1
  once h h' := by
    obtain ⟨y, hy, hp⟩ := hf.lists_iff.1 h
    obtain ⟨z, hz, hq⟩ := hf.lists_iff.1 h'
    rw [hy, Option.some.injEq] at hz
    rw [hz, hq, Option.some.injEq] at hp
    exact hp.symm
  nodup := hf.nodup

/-- The way down and the way up meet the same nodes. -/
theorem WellFormed.transGen_lists_iff {x m : NodeId} :
    Relation.TransGen f.Lists x m ↔ f.Below x m := by
  constructor
  · intro h
    induction h with
    | single h =>
        obtain ⟨y, hy, hp⟩ := hf.lists_iff.1 h
        exact Below.child hy hp
    | tail _ h ih =>
        obtain ⟨y, hy, hp⟩ := hf.lists_iff.1 h
        exact Below.step ih hy hp
  · intro h
    induction h with
    | child hy hp => exact Relation.TransGen.single (hf.lists_iff.2 ⟨_, hy, hp⟩)
    | step _ hy hp ih => exact ih.tail (hf.lists_iff.2 ⟨_, hy, hp⟩)

/-- **The descendants of a node are the nodes below it.** -/
theorem mem_descendants_iff {x m : NodeId} : m ∈ f.descendants x ↔ f.Below x m :=
  (hf.layered.mem_descendants_iff x).trans hf.transGen_lists_iff

/-- Each of them is listed once. -/
theorem nodup_descendants (x : NodeId) : (f.descendants x).Nodup := hf.layered.nodup_descendants x

end WellFormed

end Forest

end ObjectBus
