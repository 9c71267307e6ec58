import Mathlib.Data.List.Induction
import Mathlib.Logic.Function.Basic
import ObjectBus.Proofs.Entries
import ObjectBus.Proofs.Value.Order

/-!
# Values as keys

What the order of values is for: a map that is keyed by values. Every history of such a map, as data
(`Entries.Edit`), is followed beside it by a plain function from keys, which tells keys apart by what
they are and knows nothing of the order (`Entries.mapAfter`). The map finds what the function has,
and lists no key twice.

Nothing but the laws of the order goes into this, so the histories are those of any map whose keys
are ordered lawfully. That values are is put together in `Value.compare_separates`: their comparison
is a total order, under which a value is level with itself only, down to the bits of a double.
-/

set_option autoImplicit false

namespace ObjectBus

namespace Entries

variable {κ α : Type}

/-- **What may be done to a map.** -/
inductive Edit (κ α : Type) where
  | put (k : κ) (a : α)
  | drop (k : κ)

/-- An edit is made to a map. -/
def Edit.carryOut [Ord κ] : Edit κ α → Entries κ α → Entries κ α
  | .put k a, es => es.put k a
  | .drop k, es => es.drop k

/-- **What an edit makes of a plain function.** Elsewhere the function stays as it is. -/
def Edit.change [DecidableEq κ] : Edit κ α → (κ → Option α) → κ → Option α
  | .put k a, f => Function.update f k (some a)
  | .drop k, f => Function.update f k none

/-- The map after a history, the first edit in the list made first. -/
def afterEdits [Ord κ] (history : List (Edit κ α)) : Entries κ α :=
  history.foldl (fun es e => e.carryOut es) []

/-- The plain function after a history. -/
def mapAfter [DecidableEq κ] (history : List (Edit κ α)) : κ → Option α :=
  history.foldl (fun f e => e.change f) fun _ => none

section Laws

variable [Ord κ] [Std.LawfulEqOrd κ]

/-- **One edit** changes the map as it changes the function. -/
theorem get?_carryOut [DecidableEq κ] {es : Entries κ α} (hs : Sorted es) {f : κ → Option α}
    (hf : ∀ k, get? k es = f k) (e : Edit κ α) (k : κ) :
    get? k (e.carryOut es) = e.change f k := by
  cases e with
  | put l a =>
      show get? k (put l a es) = Function.update f l (some a) k
      by_cases hkl : k = l
      · rw [hkl, get?_put_self, Function.update_self]
      · rw [get?_put_of_ne hkl, Function.update_of_ne hkl, hf]
  | drop l =>
      show get? k (drop l es) = Function.update f l none k
      by_cases hkl : k = l
      · rw [hkl, get?_drop_self hs, Function.update_self]
      · rw [get?_drop_of_ne hkl, Function.update_of_ne hkl, hf]

variable [Std.TransOrd κ]

theorem sorted_carryOut {es : Entries κ α} (hs : Sorted es) (e : Edit κ α) :
    Sorted (e.carryOut es) := by
  cases e with
  | put k a => exact sorted_put hs k a
  | drop k => exact sorted_drop hs k

theorem sorted_afterEdits (history : List (Edit κ α)) : Sorted (afterEdits history) := by
  induction history using List.reverseRecOn with
  | nil => exact sorted_nil
  | append_singleton history e ih => simpa [afterEdits] using sorted_carryOut ih e

/-- **Along a history** the map finds what the function has. -/
theorem get?_afterEdits [DecidableEq κ] (history : List (Edit κ α)) (k : κ) :
    get? k (afterEdits history) = mapAfter history k := by
  induction history using List.reverseRecOn generalizing k with
  | nil => rfl
  | append_singleton history e ih =>
      simpa [afterEdits, mapAfter] using get?_carryOut (sorted_afterEdits history) ih e k

end Laws

end Entries

namespace Value

theorem compare_eq_iff {v w : Value} : v.compare w = .eq ↔ v = w :=
  ⟨eq_of_compare v w, fun h => h ▸ compare_self v⟩

theorem beq_iff {v w : Value} : (v == w) = true ↔ v = w := by
  show decide (v.compare w = .eq) = true ↔ v = w
  rw [decide_eq_true_iff, compare_eq_iff]

instance : DecidableEq Value := fun _ _ => decidable_of_iff _ compare_eq_iff

/-- Of two values, one is at most the other. -/
theorem isLE_total (v w : Value) : (v.compare w).isLE = true ∨ (w.compare v).isLE = true := by
  rw [compare_swap w v]
  cases v.compare w with
  | lt => exact Or.inl rfl
  | eq => exact Or.inl rfl
  | gt => exact Or.inr rfl

/-- Values that are at most each other are equal. -/
theorem eq_of_isLE {v w : Value} (h : (v.compare w).isLE = true) (h' : (w.compare v).isLE = true) :
    v = w := by
  rw [compare_swap w v] at h'
  refine eq_of_compare v w ?_
  cases hvw : v.compare w with
  | lt => rw [hvw] at h'; cases h'
  | eq => rfl
  | gt => rw [hvw] at h; cases h

/-- A map value is what a history of storing its entries leaves. -/
theorem ofEntries_eq (es : List (Value × Value)) :
    ofEntries es = .map (Entries.afterEdits (es.map fun e => .put e.1 e.2)) := by
  rw [ofEntries, Entries.collect, Entries.afterEdits, List.foldl_map]
  rfl

/-- **The order of values is total and separates them.** It is reflexive, antisymmetric, transitive
and total, and it answers the other way round where the values change places. Two values compare
equal, and are equal to `==`, iff they are one value. And whatever history a map has that is keyed by
values, no key stands in it twice, and what it has under a key is what a function has of the same
history that tells keys apart by what they are. -/
theorem compare_separates :
    (∀ v : Value, v.compare v = .eq) ∧
    (∀ v w : Value, (v.compare w).isLE = true → (w.compare v).isLE = true → v = w) ∧
    (∀ u v w : Value,
      (u.compare v).isLE = true → (v.compare w).isLE = true → (u.compare w).isLE = true) ∧
    (∀ u v w : Value, u.compare v = .lt → v.compare w = .lt → u.compare w = .lt) ∧
    (∀ v w : Value, (v.compare w).isLE = true ∨ (w.compare v).isLE = true) ∧
    (∀ v w : Value, v.compare w = (w.compare v).swap) ∧
    (∀ v w : Value, v.compare w = .eq ↔ v = w) ∧
    (∀ v w : Value, (v == w) = true ↔ v = w) ∧
    (∀ (α : Type) (history : List (Entries.Edit Value α)),
      (Entries.afterEdits history).keys.Nodup ∧
      ∀ k, (Entries.afterEdits history).get? k = Entries.mapAfter history k) ∧
    (∀ es : List (Value × Value),
      ofEntries es = .map (Entries.afterEdits (es.map fun e => .put e.1 e.2))) := by
  refine ⟨compare_self, fun v w => eq_of_isLE, fun u v w => (compare_triangle u v w).isLE,
    fun u v w => (compare_triangle u v w).lt, isLE_total, compare_swap, fun v w => compare_eq_iff,
    fun v w => beq_iff, fun α history => ⟨?_, ?_⟩, ofEntries_eq⟩
  · exact (Entries.sorted_afterEdits history).nodup
  · exact Entries.get?_afterEdits history

/-- A map value whose one key is a double. -/
def keyedBy (bits : UInt64) : Value := ofEntries [(.scalar .double bits, .vector [])]

/-- Maps as keys, which differ in the double inside: the negative zero, the zero, and two NaNs. The
zero is stored twice and a NaN dropped again. -/
def doubleHistory : List (Entries.Edit Value Nat) :=
  [.put (keyedBy 0x7ff8000000000001) 1, .put (keyedBy 0) 2, .put (keyedBy 0x8000000000000000) 3,
    .put (keyedBy 0x7ff8000000000000) 4, .put (keyedBy 0) 5, .drop (keyedBy 0x7ff8000000000001)]

theorem compare_separates_doubles :
    (keyedBy 0x8000000000000000).compare (keyedBy 0) = .lt ∧
    (keyedBy 0).compare (keyedBy 0x7ff8000000000000) = .lt ∧
    (keyedBy 0x8000000000000000).compare (keyedBy 0x7ff8000000000000) = .lt ∧
    (Entries.afterEdits doubleHistory).keys.Nodup ∧
    (Entries.afterEdits doubleHistory).get? (keyedBy 0x8000000000000000) = some 3 ∧
    (Entries.afterEdits doubleHistory).get? (keyedBy 0) = some 5 ∧
    (Entries.afterEdits doubleHistory).get? (keyedBy 0x7ff8000000000000) = some 4 ∧
    (Entries.afterEdits doubleHistory).get? (keyedBy 0x7ff8000000000001) = none := by
  obtain ⟨-, -, -, trans, -, -, -, -, maps, -⟩ := compare_separates
  have hzeros : (keyedBy 0x8000000000000000).compare (keyedBy 0) = .lt := by decide +kernel
  have hnan : (keyedBy 0).compare (keyedBy 0x7ff8000000000000) = .lt := by decide +kernel
  obtain ⟨hnodup, hget⟩ := maps Nat doubleHistory
  refine ⟨hzeros, hnan, trans _ _ _ hzeros hnan, hnodup, ?_, ?_, ?_, ?_⟩
  · rw [hget]; decide +kernel
  · rw [hget]; decide +kernel
  · rw [hget]; decide +kernel
  · rw [hget]; decide +kernel

end Value

end ObjectBus
