import Mathlib.Data.Nat.Basic
import ObjectBus.Value

/-!
# The order of values

Values are ordered totally, and only a value itself compares equal to it. So a map that is keyed by
values never confuses two keys, and never holds one twice.

Transitivity is proved as one statement about three comparisons (`Triangle`), which goes
through lexicographic comparison at once: what it says about the heads and about the rests it says
about the whole.
-/

set_option autoImplicit false

namespace ObjectBus

/-- **Three comparisons of three things that fit together.** -/
structure Triangle (ab bc ac : Ordering) : Prop where
  lt : ab = .lt → bc = .lt → ac = .lt
  left : ab = .eq → ac = bc
  right : bc = .eq → ac = ab

theorem Triangle.then {ab bc ac ab' bc' ac' : Ordering} (h : Triangle ab bc ac)
    (h' : Triangle ab' bc' ac') : Triangle (ab.then ab') (bc.then bc') (ac.then ac') := by
  refine ⟨fun hab hbc => ?_, fun hab => ?_, fun hbc => ?_⟩
  · rw [Ordering.then_eq_lt] at hab hbc ⊢
    rcases hab with hab | ⟨hab, hab'⟩
    · rcases hbc with hbc | ⟨hbc, -⟩
      · exact Or.inl (h.lt hab hbc)
      · exact Or.inl ((h.right hbc).trans hab)
    · rcases hbc with hbc | ⟨hbc, hbc'⟩
      · exact Or.inl ((h.left hab).trans hbc)
      · exact Or.inr ⟨(h.left hab).trans hbc, h'.lt hab' hbc'⟩
  · obtain ⟨hab, hab'⟩ := Ordering.then_eq_eq.1 hab
    rw [h.left hab, h'.left hab']
  · obtain ⟨hbc, hbc'⟩ := Ordering.then_eq_eq.1 hbc
    rw [h.right hbc, h'.right hbc']

theorem Triangle.isLE {ab bc ac : Ordering} (h : Triangle ab bc ac)
    (hab : ab.isLE = true) (hbc : bc.isLE = true) : ac.isLE = true := by
  cases ab with
  | lt =>
      cases bc with
      | lt => rw [h.lt rfl rfl]; rfl
      | eq => rw [h.right rfl]; rfl
      | gt => cases hbc
  | eq => rw [h.left rfl]; exact hbc
  | gt => cases hab

theorem triangle_of_trans {α : Type} {cmp : α → α → Ordering} [Std.TransCmp cmp]
    [Std.LawfulEqCmp cmp] (a b c : α) : Triangle (cmp a b) (cmp b c) (cmp a c) where
  lt := Std.TransCmp.lt_trans
  left h := by rw [Std.LawfulEqCmp.eq_of_compare h]
  right h := by rw [Std.LawfulEqCmp.eq_of_compare h]

/-! ## Scalars -/

theorem totalOrderKey_injective {a b : UInt64} (h : totalOrderKey a = totalOrderKey b) : a = b := by
  unfold totalOrderKey signWeight at h
  have ha := a.toNat_lt
  have hb := b.toNat_lt
  refine UInt64.toNat_inj.1 ?_
  split at h <;> split at h <;> omega

instance (s : Scalar) : Std.TransCmp s.compare := by
  cases s with
  | int16 => exact inferInstanceAs (Std.TransOrd Int16)
  | uint16 => exact inferInstanceAs (Std.TransOrd UInt16)
  | int32 => exact inferInstanceAs (Std.TransOrd Int32)
  | uint32 => exact inferInstanceAs (Std.TransOrd UInt32)
  | int64 => exact inferInstanceAs (Std.TransOrd Int64)
  | uint64 => exact inferInstanceAs (Std.TransOrd UInt64)
  | double =>
      exact
        { eq_swap := Std.OrientedOrd.eq_swap (α := Int)
          isLE_trans := Std.TransOrd.isLE_trans (α := Int) }
  | byte => exact inferInstanceAs (Std.TransOrd UInt8)
  | bool => exact inferInstanceAs (Std.TransOrd Bool)
  | string => exact inferInstanceAs (Std.TransOrd String)
  | path => exact inferInstanceAs (Std.TransOrd String)
  | signature => exact inferInstanceAs (Std.TransOrd String)
  | object => exact inferInstanceAs (Std.TransOrd Nat)

instance (s : Scalar) : Std.LawfulEqCmp s.compare := by
  cases s with
  | int16 => exact inferInstanceAs (Std.LawfulEqOrd Int16)
  | uint16 => exact inferInstanceAs (Std.LawfulEqOrd UInt16)
  | int32 => exact inferInstanceAs (Std.LawfulEqOrd Int32)
  | uint32 => exact inferInstanceAs (Std.LawfulEqOrd UInt32)
  | int64 => exact inferInstanceAs (Std.LawfulEqOrd Int64)
  | uint64 => exact inferInstanceAs (Std.LawfulEqOrd UInt64)
  | double =>
      exact
        { compare_self := Std.ReflOrd.compare_self (α := Int)
          eq_of_compare := fun h =>
            totalOrderKey_injective (Std.LawfulEqOrd.eq_of_compare (α := Int) h) }
  | byte => exact inferInstanceAs (Std.LawfulEqOrd UInt8)
  | bool => exact inferInstanceAs (Std.LawfulEqOrd Bool)
  | string => exact inferInstanceAs (Std.LawfulEqOrd String)
  | path => exact inferInstanceAs (Std.LawfulEqOrd String)
  | signature => exact inferInstanceAs (Std.LawfulEqOrd String)
  | object => exact inferInstanceAs (Std.LawfulEqOrd Nat)

/-! ## Values of different kinds -/

theorem Kind.rank_injective {k l : Kind} (h : k.rank = l.rank) : k = l := by
  cases k with
  | scalar s =>
      cases l with
      | scalar r => cases s <;> cases r <;> first | rfl | cases h
      | _ => cases s <;> cases h
  | _ =>
      cases l with
      | scalar r => cases r <;> cases h
      | _ => first | rfl | cases h

namespace Value

theorem compare_of_kind_ne {v w : Value} (h : v.kind ≠ w.kind) :
    v.compare w = Ord.compare v.kind.rank w.kind.rank := by
  cases v with
  | scalar s x =>
      cases w with
      | scalar r y =>
          have hsr : s ≠ r := fun hsr => h (congrArg Kind.scalar hsr)
          rw [compare, dif_neg hsr]
          rfl
      | _ => rfl
  | vector xs => cases w <;> first | rfl | exact absurd rfl h
  | tuple xs => cases w <;> first | rfl | exact absurd rfl h
  | map es => cases w <;> first | rfl | exact absurd rfl h

/-- Values of different kinds never compare equal. -/
theorem kind_eq_of_compare {v w : Value} (h : v.compare w = .eq) : v.kind = w.kind := by
  by_contra hne
  rw [compare_of_kind_ne hne] at h
  exact hne (Kind.rank_injective (Std.LawfulEqOrd.eq_of_compare h))

theorem compare_scalar (s : Scalar) (x y : s.Carrier) :
    (scalar s x).compare (scalar s y) = s.compare x y := by
  rw [compare, dif_pos rfl]

theorem exists_scalar {s : Scalar} {w : Value} (h : w.kind = .scalar s) :
    ∃ y, w = .scalar s y := by
  cases w <;> cases h
  exact ⟨_, rfl⟩

theorem exists_vector {w : Value} (h : w.kind = .vector) : ∃ ys, w = .vector ys := by
  cases w <;> cases h
  exact ⟨_, rfl⟩

theorem exists_tuple {w : Value} (h : w.kind = .tuple) : ∃ ys, w = .tuple ys := by
  cases w <;> cases h
  exact ⟨_, rfl⟩

theorem exists_map {w : Value} (h : w.kind = .map) : ∃ fs, w = .map fs := by
  cases w <;> cases h
  exact ⟨_, rfl⟩

/-- Comparisons fit together where two of three values are of different kinds. -/
theorem triangle_of_kinds {a b c : Value} (h : ¬(b.kind = a.kind ∧ c.kind = a.kind)) :
    Triangle (a.compare b) (b.compare c) (a.compare c) := by
  have hranks := @triangle_of_trans Nat Ord.compare _ _ a.kind.rank b.kind.rank c.kind.rank
  have hne : ∀ {v w : Value}, v.kind ≠ w.kind → v.compare w ≠ .eq :=
    fun hkind heq => hkind (kind_eq_of_compare heq)
  by_cases hab : a.kind = b.kind
  · have hac : a.kind ≠ c.kind := fun hac => h ⟨hab.symm, hac.symm⟩
    have hbc : b.kind ≠ c.kind := hab ▸ hac
    -- `a` and `b` are one to `c`
    have hsame : a.compare c = b.compare c := by
      rw [compare_of_kind_ne hac, compare_of_kind_ne hbc, hab]
    exact ⟨fun _ hlt => hsame.trans hlt, fun _ => hsame, fun heq => absurd heq (hne hbc)⟩
  · by_cases hbc : b.kind = c.kind
    · have hac : a.kind ≠ c.kind := hbc ▸ hab
      have hsame : a.compare c = a.compare b := by
        rw [compare_of_kind_ne hac, compare_of_kind_ne hab, hbc]
      exact ⟨fun hlt _ => hsame.trans hlt, fun heq => absurd heq (hne hab), fun _ => hsame⟩
    · rw [← compare_of_kind_ne hab, ← compare_of_kind_ne hbc] at hranks
      refine ⟨fun hlt hlt' => ?_, fun heq => absurd heq (hne hab),
        fun heq => absurd heq (hne hbc)⟩
      have hlt'' := hranks.lt hlt hlt'
      by_cases hac : a.kind = c.kind
      · rw [hac, Std.ReflOrd.compare_self] at hlt''
        cases hlt''
      · rw [compare_of_kind_ne hac, hlt'']

/-! ## The laws -/

mutual
theorem compare_self : (v : Value) → v.compare v = .eq
  | .scalar s x => by
      rw [compare_scalar]
      exact Std.ReflCmp.compare_self
  | .vector xs => by rw [compare, compareAll_self xs]
  | .tuple xs => by rw [compare, compareAll_self xs]
  | .map es => by rw [compare, compareEntries_self es]

theorem compareAll_self : (xs : List Value) → compareAll xs xs = .eq
  | [] => by rw [compareAll]
  | x :: xs => by
      rw [compareAll, compare_self x, compareAll_self xs]
      rfl

theorem compareEntries_self : (es : List (Value × Value)) → compareEntries es es = .eq
  | [] => by rw [compareEntries]
  | (k, x) :: es => by
      rw [compareEntries, compare_self k, compare_self x, compareEntries_self es]
      rfl
end

mutual
/-- **Only equal values compare equal.** -/
theorem eq_of_compare : (v w : Value) → v.compare w = .eq → v = w
  | .scalar s x, w, h => by
      obtain ⟨y, rfl⟩ := exists_scalar (kind_eq_of_compare h).symm
      rw [compare_scalar] at h
      rw [Std.LawfulEqCmp.eq_of_compare h]
  | .vector xs, w, h => by
      obtain ⟨ys, rfl⟩ := exists_vector (kind_eq_of_compare h).symm
      rw [compare] at h
      rw [eq_of_compareAll xs ys h]
  | .tuple xs, w, h => by
      obtain ⟨ys, rfl⟩ := exists_tuple (kind_eq_of_compare h).symm
      rw [compare] at h
      rw [eq_of_compareAll xs ys h]
  | .map es, w, h => by
      obtain ⟨fs, rfl⟩ := exists_map (kind_eq_of_compare h).symm
      rw [compare] at h
      rw [eq_of_compareEntries es fs h]

theorem eq_of_compareAll : (xs ys : List Value) → compareAll xs ys = .eq → xs = ys
  | [], [], _ => rfl
  | [], _ :: _, h => by cases h
  | _ :: _, [], h => by cases h
  | x :: xs, y :: ys, h => by
      rw [compareAll, Ordering.then_eq_eq] at h
      rw [eq_of_compare x y h.1, eq_of_compareAll xs ys h.2]

theorem eq_of_compareEntries : (es fs : List (Value × Value)) → compareEntries es fs = .eq →
    es = fs
  | [], [], _ => rfl
  | [], _ :: _, h => by cases h
  | _ :: _, [], h => by cases h
  | (k, x) :: es, (l, y) :: fs, h => by
      rw [compareEntries, Ordering.then_eq_eq, Ordering.then_eq_eq] at h
      rw [eq_of_compare k l h.1.1, eq_of_compare x y h.1.2, eq_of_compareEntries es fs h.2]
end

/-- Values of different kinds compare the other way round if they change places. -/
theorem compare_swap_of_kind_ne {v w : Value} (h : v.kind ≠ w.kind) :
    v.compare w = (w.compare v).swap := by
  rw [compare_of_kind_ne h, compare_of_kind_ne h.symm]
  exact Std.OrientedOrd.eq_swap

mutual
theorem compare_swap : (v w : Value) → v.compare w = (w.compare v).swap
  | .scalar s x, w => by
      by_cases h : w.kind = .scalar s
      · obtain ⟨y, rfl⟩ := exists_scalar h
        rw [compare_scalar, compare_scalar]
        exact Std.OrientedCmp.eq_swap
      · exact compare_swap_of_kind_ne fun heq => h heq.symm
  | .vector xs, w => by
      by_cases h : w.kind = .vector
      · obtain ⟨ys, rfl⟩ := exists_vector h
        rw [compare, compare, compareAll_swap xs ys]
      · exact compare_swap_of_kind_ne fun heq => h heq.symm
  | .tuple xs, w => by
      by_cases h : w.kind = .tuple
      · obtain ⟨ys, rfl⟩ := exists_tuple h
        rw [compare, compare, compareAll_swap xs ys]
      · exact compare_swap_of_kind_ne fun heq => h heq.symm
  | .map es, w => by
      by_cases h : w.kind = .map
      · obtain ⟨fs, rfl⟩ := exists_map h
        rw [compare, compare, compareEntries_swap es fs]
      · exact compare_swap_of_kind_ne fun heq => h heq.symm

theorem compareAll_swap : (xs ys : List Value) → compareAll xs ys = (compareAll ys xs).swap
  | [], [] => by rw [compareAll]; rfl
  | [], _ :: _ => by rw [compareAll, compareAll]; rfl
  | _ :: _, [] => by rw [compareAll, compareAll]; rfl
  | x :: xs, y :: ys => by
      rw [compareAll, compareAll, Ordering.swap_then, compare_swap x y, compareAll_swap xs ys]

theorem compareEntries_swap : (es fs : List (Value × Value)) →
    compareEntries es fs = (compareEntries fs es).swap
  | [], [] => by rw [compareEntries]; rfl
  | [], _ :: _ => by rw [compareEntries, compareEntries]; rfl
  | _ :: _, [] => by rw [compareEntries, compareEntries]; rfl
  | (k, x) :: es, (l, y) :: fs => by
      rw [compareEntries, compareEntries, Ordering.swap_then, Ordering.swap_then,
        compare_swap k l, compare_swap x y, compareEntries_swap es fs]
end

mutual
/-- **Comparisons of three values fit together.** -/
theorem compare_triangle : (a b c : Value) →
    Triangle (a.compare b) (b.compare c) (a.compare c)
  | .scalar s x, b, c => by
      by_cases h : b.kind = .scalar s ∧ c.kind = .scalar s
      · obtain ⟨⟨y, rfl⟩, ⟨z, rfl⟩⟩ := And.imp exists_scalar exists_scalar h
        simp only [compare_scalar]
        exact triangle_of_trans x y z
      · exact triangle_of_kinds h
  | .vector xs, b, c => by
      by_cases h : b.kind = .vector ∧ c.kind = .vector
      · obtain ⟨⟨ys, rfl⟩, ⟨zs, rfl⟩⟩ := And.imp exists_vector exists_vector h
        simpa only [compare] using compareAll_triangle xs ys zs
      · exact triangle_of_kinds h
  | .tuple xs, b, c => by
      by_cases h : b.kind = .tuple ∧ c.kind = .tuple
      · obtain ⟨⟨ys, rfl⟩, ⟨zs, rfl⟩⟩ := And.imp exists_tuple exists_tuple h
        simpa only [compare] using compareAll_triangle xs ys zs
      · exact triangle_of_kinds h
  | .map es, b, c => by
      by_cases h : b.kind = .map ∧ c.kind = .map
      · obtain ⟨⟨fs, rfl⟩, ⟨gs, rfl⟩⟩ := And.imp exists_map exists_map h
        simpa only [compare] using compareEntries_triangle es fs gs
      · exact triangle_of_kinds h

theorem compareAll_triangle : (xs ys zs : List Value) →
    Triangle (compareAll xs ys) (compareAll ys zs) (compareAll xs zs)
  | [], [], _ => by constructor <;> simp [compareAll]
  | [], _ :: _, [] => by constructor <;> simp [compareAll]
  | [], _ :: _, _ :: _ => by constructor <;> simp [compareAll]
  | _ :: _, [], [] => by constructor <;> simp [compareAll]
  | _ :: _, [], _ :: _ => by constructor <;> simp [compareAll]
  | _ :: _, _ :: _, [] => by constructor <;> simp [compareAll]
  | x :: xs, y :: ys, z :: zs => by
      simpa only [compareAll] using (compare_triangle x y z).then (compareAll_triangle xs ys zs)

theorem compareEntries_triangle : (es fs gs : List (Value × Value)) →
    Triangle (compareEntries es fs) (compareEntries fs gs) (compareEntries es gs)
  | [], [], _ => by constructor <;> simp [compareEntries]
  | [], _ :: _, [] => by constructor <;> simp [compareEntries]
  | [], _ :: _, _ :: _ => by constructor <;> simp [compareEntries]
  | _ :: _, [], [] => by constructor <;> simp [compareEntries]
  | _ :: _, [], _ :: _ => by constructor <;> simp [compareEntries]
  | _ :: _, _ :: _, [] => by constructor <;> simp [compareEntries]
  | (k, x) :: es, (l, y) :: fs, (m, z) :: gs => by
      simpa only [compareEntries] using ((compare_triangle k l m).then
        (compare_triangle x y z)).then (compareEntries_triangle es fs gs)
end

end Value

instance : Std.TransOrd Value where
  eq_swap := Value.compare_swap _ _
  isLE_trans := (Value.compare_triangle _ _ _).isLE

instance : Std.LawfulEqOrd Value where
  compare_self := Value.compare_self _
  eq_of_compare := Value.eq_of_compare _ _

end ObjectBus
