/-!
# Entries — finite maps as sorted entry lists

A finite map is kept as the list of its entries in strictly increasing key order. The order of the
keys is the one `compare` gives, so iteration order is never an accident: the members of an
interface, the entries of a map value and the children of a trie branch are all listed as they are
stored.

The operations do not carry the order as a proof field; `Sorted` says what it is, and every
operation keeps it. A map that occurs inside an inductive type (a map value, a trie) is such a list
too, and takes the same operations.
-/

set_option autoImplicit false

namespace ObjectBus

/-- **A finite map from `κ` to `α`**, as the list of its entries in increasing key order. -/
abbrev Entries (κ α : Type) := List (κ × α)

namespace Entries

variable {κ α : Type}

/-- The keys, in order. -/
def keys (es : Entries κ α) : List κ := es.map Prod.fst

/-- The values, in key order. -/
def values (es : Entries κ α) : List α := es.map Prod.snd

variable [Ord κ]

/-- The value stored under a key. -/
def get? (k : κ) : Entries κ α → Option α
  | [] => none
  | (l, a) :: es => if compare k l = .eq then some a else get? k es

/-- Whether a key is stored. -/
def has (k : κ) (es : Entries κ α) : Bool := (get? k es).isSome

/-- Stores a value under a key, in place of the one that was there. -/
def put (k : κ) (a : α) : Entries κ α → Entries κ α
  | [] => [(k, a)]
  | (l, b) :: es =>
      match compare k l with
      | .lt => (k, a) :: (l, b) :: es
      | .eq => (k, a) :: es
      | .gt => (l, b) :: put k a es

/-- Drops a key. -/
def drop (k : κ) : Entries κ α → Entries κ α
  | [] => []
  | (l, b) :: es => if compare k l = .eq then es else (l, b) :: drop k es

/-- Changes the value under a key, if there is one. -/
def adjust (k : κ) (f : α → α) : Entries κ α → Entries κ α
  | [] => []
  | (l, b) :: es => if compare k l = .eq then (l, f b) :: es else (l, b) :: adjust k f es

/-- Stores the entries of a list one after the other, so that of two equal keys the later wins. -/
def collect (xs : List (κ × α)) : Entries κ α := xs.foldl (fun es e => put e.1 e.2 es) []

/-- **The stored order**: the keys increase strictly, so that none is stored twice. -/
def Sorted (es : Entries κ α) : Prop := es.Pairwise fun x y => compare x.1 y.1 = .lt

end Entries

/-- **A finite set**, as a finite map whose values say nothing. -/
abbrev Members (κ : Type) := Entries κ Unit

namespace Members

variable {κ : Type}

/-- The members, in order. -/
def toList (s : Members κ) : List κ := Entries.keys s

variable [Ord κ]

/-- Whether `k` is a member. -/
def has (k : κ) (s : Members κ) : Bool := Entries.has k s

/-- Adds a member. -/
def add (k : κ) (s : Members κ) : Members κ := Entries.put k () s

/-- Drops a member. -/
def remove (k : κ) (s : Members κ) : Members κ := Entries.drop k s

end Members

end ObjectBus
