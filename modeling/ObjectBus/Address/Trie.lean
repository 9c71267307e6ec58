import ObjectBus.Address
import ObjectBus.Entries

/-!
# Tries — values stored at addresses

A trie keeps values by address, one branch for each component on the way. Storing a value makes the
branches that lead to it; removing one drops the branches that then lead nowhere. So what the
children of a branch are called says exactly which values lie below it.

Iterating visits the values in address order. It keeps a stack of branches and not a place in a
listing, so it can stop after any value.
-/

set_option autoImplicit false

namespace ObjectBus

/-- **A trie keyed by address**: the value stored here, and the branches by their component. -/
inductive Trie (α : Type) where
  | node (value : Option α) (children : List (String × Trie α))

namespace Trie

variable {α : Type}

/-- The trie that stores nothing. -/
def empty : Trie α := .node none []

instance : Inhabited (Trie α) := ⟨empty⟩

/-- The value stored at the top. -/
def value : Trie α → Option α
  | .node v _ => v

/-- The branches at the top. -/
def children : Trie α → Entries String (Trie α)
  | .node _ cs => cs

/-- The branch at an address. -/
def branch? : Trie α → List String → Option (Trie α)
  | t, [] => some t
  | t, c :: cs =>
      match Entries.get? c t.children with
      | none => none
      | some u => u.branch? cs

/-- **The value at an address.** -/
def get? (t : Trie α) (a : Address) : Option α := (t.branch? a.components).bind value

/-- Whether an address has a value. -/
def has (t : Trie α) (a : Address) : Bool := (t.get? a).isSome

/-- Stores a value below the components, making the branches on the way. -/
def putBelow (x : α) : Trie α → List String → Trie α
  | .node _ ch, [] => .node (some x) ch
  | .node v ch, c :: cs =>
      .node v (Entries.put c (putBelow x ((Entries.get? c ch).getD empty) cs) ch)

/-- **Stores a value at an address**, in place of the one that was there. -/
def put (t : Trie α) (a : Address) (x : α) : Trie α := putBelow x t a.components

/-- Whether nothing is stored here and no branch leaves from here. -/
def isBare : Trie α → Bool
  | .node v ch => v.isNone && ch.isEmpty

/-- Clears the value below the components and drops the branches that become bare by it. -/
def clearBelow : Trie α → List String → Trie α
  | .node _ ch, [] => .node none ch
  | .node v ch, c :: cs =>
      match Entries.get? c ch with
      | none => .node v ch
      | some u =>
          let u := u.clearBelow cs
          .node v (if u.isBare then Entries.drop c ch else Entries.put c u ch)

/-- **Removes the value at an address.** Where there is none, nothing changes. -/
def remove (t : Trie α) (a : Address) : Trie α :=
  if t.has a then t.clearBelow a.components else t

/-- Changes the value at an address, if there is one. -/
def adjust (t : Trie α) (a : Address) (f : α → α) : Trie α :=
  match t.get? a with
  | none => t
  | some x => t.put a (f x)

/-- The value at an address and the trie that has one there: `x` is stored if there was none. -/
def getOrPut (t : Trie α) (a : Address) (x : α) : α × Trie α :=
  match t.get? a with
  | some y => (y, t)
  | none => (x, t.put a x)

/-- The names of the branches that leave from an address, in order. -/
def branchNames (t : Trie α) (a : Address) : List String :=
  match t.branch? a.components with
  | none => []
  | some u => Entries.keys u.children

/-- Whether an address has a value or anything below it. -/
def hasBranch (t : Trie α) (a : Address) : Bool := (t.branch? a.components).isSome

/-- Stores a value and answers the one that was there. -/
def insert (t : Trie α) (a : Address) (x : α) : Option α × Trie α := (t.get? a, t.put a x)

/-- Removes a value and answers it. -/
def take (t : Trie α) (a : Address) : Option α × Trie α := (t.get? a, t.remove a)

/-- Changes the value at an address and answers what it is then, if there is one. -/
def update (t : Trie α) (a : Address) (f : α → α) : Option α × Trie α :=
  ((t.get? a).map f, t.adjust a f)

mutual
/-- The number of stored values. -/
def size : Trie α → Nat
  | .node v ch => (if v.isSome then 1 else 0) + sizeAll ch

/-- The number of values that the branches store. -/
def sizeAll : List (String × Trie α) → Nat
  | [] => 0
  | (_, t) :: ch => t.size + sizeAll ch
end

mutual
/-- Whether nothing is stored, here or below. -/
def isEmpty : Trie α → Bool
  | .node v ch => v.isNone && allEmpty ch

/-- Whether no branch stores anything. -/
def allEmpty : List (String × Trie α) → Bool
  | [] => true
  | (_, t) :: ch => t.isEmpty && allEmpty ch
end

/-! ## Iterating

The stored values are visited in address order with a stack of branches that are still to be
visited, the next one first. A branch that is taken from the stack gives way to its own branches,
and its value is yielded before theirs. -/

/-- **The branches still to be visited**, each with its address. -/
abbrev Stack (α : Type) := List (Address × Trie α)

/-- The branches that leave from an address, in order. One whose component no address can have is
passed over. -/
def branchesAt (a : Address) : List (String × Trie α) → Stack α
  | [] => []
  | (c, t) :: ch =>
      match a.child c with
      | .ok b => (b, t) :: branchesAt a ch
      | .error _ => branchesAt a ch

mutual
/-- The number of branches in a trie, the trie itself counted. -/
def weight : Trie α → Nat
  | .node _ ch => 1 + weightAll ch

/-- The number of branches in all tries of a list. -/
def weightAll : List (String × Trie α) → Nat
  | [] => 0
  | (_, t) :: ch => t.weight + weightAll ch
end

namespace Stack

/-- The number of branches to be visited from a stack. -/
def pending : Stack α → Nat
  | [] => 0
  | (_, t) :: stack => t.weight + pending stack

theorem pending_append (s₁ s₂ : Stack α) : pending (s₁ ++ s₂) = pending s₁ + pending s₂ := by
  induction s₁ with
  | nil => simp [pending]
  | cons e s₁ ih =>
      obtain ⟨a, t⟩ := e
      simp only [List.cons_append, pending, ih]
      omega

theorem pending_branchesAt_le (a : Address) (ch : List (String × Trie α)) :
    pending (branchesAt a ch) ≤ weightAll ch := by
  induction ch with
  | nil => exact Nat.le_refl 0
  | cons e ch ih =>
      obtain ⟨c, t⟩ := e
      simp only [branchesAt, weightAll]
      split
      · simp only [pending]
        omega
      · omega

/-- A branch weighs more than those that take its place. -/
theorem pending_descend_lt (a : Address) (v : Option α) (ch : List (String × Trie α))
    (stack : Stack α) :
    pending (branchesAt a ch ++ stack) < pending ((a, Trie.node v ch) :: stack) := by
  have hle := pending_branchesAt_le a ch
  simp only [pending_append, pending, weight]
  omega

/-- **The next stored value**, with the branches that are to be visited after it. -/
def next? : Stack α → Option ((Address × α) × Stack α)
  | [] => none
  | (a, .node (some x) ch) :: stack => some ((a, x), branchesAt a ch ++ stack)
  | (a, .node none ch) :: stack => next? (branchesAt a ch ++ stack)
termination_by stack => pending stack
decreasing_by exact pending_descend_lt a none ch stack

theorem pending_next?_lt {stack rest : Stack α} {e : Address × α}
    (h : next? stack = some (e, rest)) : pending rest < pending stack := by
  fun_induction next? stack with
  | case1 => cases h
  | case2 a x ch stack =>
      cases h
      exact pending_descend_lt a (some x) ch stack
  | case3 a ch stack ih => exact Nat.lt_trans (ih h) (pending_descend_lt a none ch stack)

/-- All stored values that are visited from a stack, in the order of the visit. -/
def values (stack : Stack α) : List (Address × α) :=
  match h : next? stack with
  | none => []
  | some (e, rest) =>
      have : pending rest < pending stack := pending_next?_lt h
      e :: values rest
termination_by pending stack

end Stack

/-- **The stored values with their addresses**, in address order. -/
def toList (t : Trie α) : List (Address × α) := Stack.values [(Address.root, t)]

end Trie

end ObjectBus
