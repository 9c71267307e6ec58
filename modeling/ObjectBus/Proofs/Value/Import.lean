import ObjectBus.Proofs.Shape.Parts
import ObjectBus.Proofs.Value.Exchange

/-!
# What importing asks for

Importing a value for a declared shape looks up the paths that stand where the shape has an object,
and no others: `Value.Asks` says which these are, at every depth. It succeeds if and only if an object
is found for each of them (`Value.exists_imported_iff`). What does not fit the shape is not looked
into and passes.
-/

set_option autoImplicit false

namespace ObjectBus.Value

/-- **A path stands where the shape has an object**, at some depth. The fields of a tuple count only if
there are as many as the shape has. -/
inductive Asks : Value → Shape → String → Prop
  | path (p : String) : Asks (.scalar .path p) (.scalar .object) p
  | item {xs : List Value} {x : Value} {e : Shape} {p : String} (hx : x ∈ xs) (h : Asks x e p) :
      Asks (.vector xs) (.vector e) p
  | field {xs : List Value} {ts : List Shape} {x : Value} {t : Shape} {p : String}
      (hlen : xs.length = ts.length) (hx : (x, t) ∈ xs.zip ts) (h : Asks x t p) :
      Asks (.tuple xs) (.tuple ts) p
  | key {es : List (Value × Value)} {x y : Value} {k v : Shape} {p : String} (he : (x, y) ∈ es)
      (h : Asks x k p) : Asks (.map es) (.map k v) p
  | value {es : List (Value × Value)} {x y : Value} {k v : Shape} {p : String} (he : (x, y) ∈ es)
      (h : Asks y v p) : Asks (.map es) (.map k v) p

/-- Nothing is asked for where the shape has no object. -/
theorem not_asks_of_not_partOf {v : Value} {t : Shape} (ht : ¬(Shape.scalar .object).PartOf t)
    (p : String) : ¬v.Asks t p := by
  intro h
  induction h with
  | path p => exact ht (.self _)
  | item _ _ ih => exact ih fun he => ht (.element he)
  | field _ hx _ ih => exact ih fun hf => ht (.field (List.of_mem_zip hx).2 hf)
  | key _ _ ih => exact ih fun hk => ht (.key hk)
  | value _ _ ih => exact ih fun hu => ht (.value hu)

variable {objectAt : String → Option ObjectId}

theorem imported_scalar_of_ne {s : Scalar} (x : s.Carrier) {t : Shape}
    (h : ¬(s = .path ∧ t = .scalar .object)) :
    (scalar s x).imported objectAt t = .ok (.scalar s x) := by
  rw [imported]
  all_goals simp_all

/-- What does not fit passes, and nothing is asked for. -/
theorem exists_imported_of_misfit {v : Value} {t : Shape} (hpass : v.imported objectAt t = .ok v)
    (hnone : ∀ p, ¬v.Asks t p) :
    (∃ w, v.imported objectAt t = .ok w) ↔ ∀ p, v.Asks t p → (objectAt p).isSome = true :=
  iff_of_true ⟨v, hpass⟩ fun p hp => absurd hp (hnone p)

theorem exists_imported_vector_iff {xs : List Value} {e : Shape} :
    (∃ w, (vector xs).imported objectAt (.vector e) = .ok w) ↔
      ∀ x ∈ xs, ∃ y, x.imported objectAt e = .ok y := by
  simp only [imported_vector_eq_ok_iff, ← exists_forall₂_iff]
  rw [exists_comm]
  simp

theorem exists_imported_tuple_iff {xs : List Value} {ts : List Shape}
    (hlen : xs.length = ts.length) :
    (∃ w, (tuple xs).imported objectAt (.tuple ts) = .ok w) ↔
      ∀ e ∈ xs.zip ts, ∃ y, e.1.imported objectAt e.2 = .ok y := by
  simp only [imported_tuple_eq_ok_iff hlen, ← exists_forall₂_iff]
  rw [exists_comm]
  simp

theorem exists_imported_map_iff {es : List (Value × Value)} {k u : Shape} :
    (∃ w, (map es).imported objectAt (.map k u) = .ok w) ↔ ∀ e ∈ es,
      (∃ x, e.1.imported objectAt k = .ok x) ∧ ∃ y, e.2.imported objectAt u = .ok y := by
  have hentry : ∀ e : Value × Value, (∃ f : Value × Value,
      e.1.imported objectAt k = .ok f.1 ∧ e.2.imported objectAt u = .ok f.2) ↔
      (∃ x, e.1.imported objectAt k = .ok x) ∧ ∃ y, e.2.imported objectAt u = .ok y := by
    simp [Prod.exists]
  simp only [imported_map_eq_ok_iff, ← hentry, ← exists_forall₂_iff]
  rw [exists_comm]
  simp

/-- **A value can be imported if and only if every path is found that stands for an object.** -/
theorem exists_imported_iff {v : Value} {t : Shape} :
    (∃ w, v.imported objectAt t = .ok w) ↔ ∀ p, v.Asks t p → (objectAt p).isSome = true := by
  induction v using Value.induction generalizing t with
  | scalar s x =>
      by_cases hpath : s = .path ∧ t = .scalar .object
      · obtain ⟨rfl, rfl⟩ := hpath
        rw [imported]
        constructor
        · rintro ⟨w, hw⟩ p ⟨⟩
          cases hp : objectAt x with
          | none => rw [hp] at hw; cases hw
          | some o => rfl
        · intro hall
          obtain ⟨o, ho⟩ := Option.isSome_iff_exists.1 (hall x (.path x))
          exact ⟨.scalar .object o, by rw [ho]⟩
      · refine exists_imported_of_misfit (imported_scalar_of_ne x hpath) ?_
        rintro p ⟨⟩
        exact hpath ⟨rfl, rfl⟩
  | vector xs ih =>
      cases t with
      | vector e =>
          rw [exists_imported_vector_iff]
          constructor
          · intro hall p hp
            obtain _ | ⟨hx, hasks⟩ := hp
            exact (ih _ hx).1 (hall _ hx) p hasks
          · intro hall x hx
            exact (ih x hx).2 fun p hp => hall p (.item hx hp)
      | _ => exact exists_imported_of_misfit rfl (by rintro p ⟨⟩)
  | tuple xs ih =>
      cases t with
      | tuple ts =>
          by_cases hlen : xs.length = ts.length
          · rw [exists_imported_tuple_iff hlen]
            constructor
            · intro hall p hp
              cases hp with
              | field _ hx hasks => exact (ih _ (List.of_mem_zip hx).1).1 (hall _ hx) p hasks
            · intro hall e he
              exact (ih e.1 (List.of_mem_zip he).1).2 fun p hp => hall p (.field hlen he hp)
          · refine exists_imported_of_misfit (imported_tuple_of_ne hlen) ?_
            rintro p ⟨⟩
            exact hlen ‹_›
      | _ => exact exists_imported_of_misfit rfl (by rintro p ⟨⟩)
  | map es ih =>
      cases t with
      | map k u =>
          rw [exists_imported_map_iff]
          constructor
          · intro hall p hp
            cases hp with
            | key he hasks => exact (ih _ he).1.1 (hall _ he).1 p hasks
            | value he hasks => exact (ih _ he).2.1 (hall _ he).2 p hasks
          · intro hall e he
            exact ⟨(ih e he).1.2 fun p hp => hall p (.key he hp),
              (ih e he).2.2 fun p hp => hall p (.value he hp)⟩
      | _ => exact exists_imported_of_misfit rfl (by rintro p ⟨⟩)

/-- **Arguments can be imported if and only if every path is found that stands for an object**; those
beyond the declared shapes pass. -/
theorem exists_importedFields_iff {xs : List Value} {ts : List Shape} :
    (∃ ys, importedFields objectAt xs ts = .ok ys) ↔
      ∀ e ∈ xs.zip ts, ∀ p, e.1.Asks e.2 p → (objectAt p).isSome = true :=
  calc (∃ ys, importedFields objectAt xs ts = .ok ys)
      ↔ ∀ e ∈ xs.zip ts, ∃ z, e.1.imported objectAt e.2 = .ok z := by
        simp only [importedFields_eq_ok_iff, ← exists_forall₂_iff]
        rw [exists_comm]
        simp
    _ ↔ ∀ e ∈ xs.zip ts, ∀ p, e.1.Asks e.2 p → (objectAt p).isSome = true :=
        forall₂_congr fun _ _ => exists_imported_iff

/-! ## What importing complains of -/

/-- **Importing fails in one way only**: a path that stands for an object leads nowhere. -/
theorem fault_of_imported {v : Value} {t : Shape} {fault : Fault}
    (h : v.imported objectAt t = .error fault) :
    ∃ p, v.Asks t p ∧ objectAt p = none ∧ fault = .unknownObject p := by
  induction v using Value.induction generalizing t with
  | scalar s x =>
      by_cases hpath : s = .path ∧ t = .scalar .object
      · obtain ⟨rfl, rfl⟩ := hpath
        rw [imported] at h
        cases hp : objectAt x with
        | none =>
            rw [hp] at h
            cases h
            exact ⟨x, .path x, hp, rfl⟩
        | some o => rw [hp] at h; cases h
      · rw [imported_scalar_of_ne x hpath] at h
        cases h
  | vector xs ih =>
      cases t with
      | vector e =>
          rw [imported_vector, map_eq_error_iff] at h
          obtain ⟨x, hx, herror⟩ := exists_of_mapM_eq_error h
          obtain ⟨p, hp, hnone, rfl⟩ := ih x hx herror
          exact ⟨p, .item hx hp, hnone, rfl⟩
      | _ => cases h
  | tuple xs ih =>
      cases t with
      | tuple ts =>
          by_cases hlen : xs.length = ts.length
          · rw [imported_tuple hlen, map_eq_error_iff] at h
            obtain ⟨e, he, herror⟩ := exists_of_mapM_eq_error h
            obtain ⟨p, hp, hnone, rfl⟩ := ih e.1 (List.of_mem_zip he).1 herror
            exact ⟨p, .field hlen he hp, hnone, rfl⟩
          · rw [imported_tuple_of_ne hlen] at h
            cases h
      | _ => cases h
  | map es ih =>
      cases t with
      | map k u =>
          rw [imported_map, map_eq_error_iff] at h
          obtain ⟨e, he, herror⟩ := exists_of_mapM_eq_error h
          rcases onEntry_eq_error_iff.1 herror with hkey | ⟨-, hvalue⟩
          · obtain ⟨p, hp, hnone, rfl⟩ := (ih e he).1 hkey
            exact ⟨p, .key he hp, hnone, rfl⟩
          · obtain ⟨p, hp, hnone, rfl⟩ := (ih e he).2 hvalue
            exact ⟨p, .value he hp, hnone, rfl⟩
      | _ => cases h

end ObjectBus.Value
