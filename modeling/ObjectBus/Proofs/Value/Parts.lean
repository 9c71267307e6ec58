import Mathlib.Data.List.Perm.Basic
import ObjectBus.Proofs.Entries
import ObjectBus.Proofs.Value.Order

/-!
# The parts of a value

What is said of a value at every depth, that it has a shape or that its maps are maps, is said of its
items, fields and entries. Here this is put in terms of membership, so that a proof about a list of
parts is a proof about each of them, and so is induction over values (`Value.induction`).
-/

set_option autoImplicit false

namespace ObjectBus

/-! ## Lists, element by element -/

section Lists

variable {α β γ ε : Type}

/-- Every element has a partner if and only if there is a list of partners. -/
theorem exists_forall₂_iff {R : α → β → Prop} {xs : List α} :
    (∃ ys, List.Forall₂ R xs ys) ↔ ∀ x ∈ xs, ∃ y, R x y := by
  induction xs with
  | nil => simp [List.forall₂_nil_left_iff]
  | cons x xs ih =>
      rw [List.forall_mem_cons, ← ih]
      constructor
      · rintro ⟨_, _ | ⟨hxy, hrest⟩⟩
        exact ⟨⟨_, hxy⟩, ⟨_, hrest⟩⟩
      · rintro ⟨⟨y, hxy⟩, ⟨ys, hrest⟩⟩
        exact ⟨y :: ys, .cons hxy hrest⟩

/-- Partners that are known to be in their lists. -/
theorem forall₂_imp_of_mem {R S : α → β → Prop} {xs : List α} {ys : List β}
    (h : List.Forall₂ R xs ys) (himp : ∀ x ∈ xs, ∀ y ∈ ys, R x y → S x y) :
    List.Forall₂ S xs ys := by
  induction h with
  | nil => exact .nil
  | cons hxy _ ih =>
      refine .cons (himp _ List.mem_cons_self _ List.mem_cons_self hxy) (ih fun x hx y hy => ?_)
      exact himp x (List.mem_cons_of_mem _ hx) y (List.mem_cons_of_mem _ hy)

/-- Lists with the same image are partners. -/
theorem forall₂_of_map_eq {f : α → γ} {g : β → γ} {xs : List α} {ys : List β}
    (h : xs.map f = ys.map g) : List.Forall₂ (fun x y => f x = g y) xs ys := by
  rw [← List.forall₂_map_left_iff (R := fun a y => a = g y), ← List.forall₂_map_right_iff, h]
  exact List.forall₂_same.2 fun _ _ => rfl

theorem map_eq_of_forall₂ {f : α → γ} {g : β → γ} {xs : List α} {ys : List β}
    (h : List.Forall₂ (fun x y => f x = g y) xs ys) : xs.map f = ys.map g := by
  induction h with
  | nil => rfl
  | cons hxy _ ih => rw [List.map_cons, List.map_cons, hxy, ih]

theorem exists_left_of_forall₂ {R : α → β → Prop} {xs : List α} {ys : List β}
    (h : List.Forall₂ R xs ys) {y : β} (hy : y ∈ ys) : ∃ x ∈ xs, R x y := by
  induction h with
  | nil => cases hy
  | @cons x z xs zs hxz _ ih =>
      rcases List.mem_cons.1 hy with rfl | hy
      · exact ⟨x, List.mem_cons_self, hxz⟩
      · obtain ⟨x', hx', hxy⟩ := ih hy
        exact ⟨x', List.mem_cons_of_mem x hx', hxy⟩

/-- Lists whose images are the same but for their order: one of them may be listed so that the images
stand side by side. -/
theorem exists_perm_of_map_perm {f : α → γ} {xs ys : List α} (h : (xs.map f).Perm (ys.map f)) :
    ∃ zs, xs.Perm zs ∧ zs.map f = ys.map f := by
  have hxs : List.Forall₂ (fun c x => c = f x) (xs.map f) xs := by
    rw [List.forall₂_map_left_iff]
    exact List.forall₂_same.2 fun _ _ => rfl
  obtain ⟨zs, hzs, hperm⟩ := List.perm_comp_forall₂ h.symm hxs
  refine ⟨zs, hperm.symm, ?_⟩
  rw [List.forall₂_map_left_iff] at hzs
  exact (map_eq_of_forall₂ hzs).symm

/-- Two partners of one element each. -/
theorem forall₂_of_common {R : α → β → Prop} {S : α → γ → Prop} {T : β → γ → Prop} {xs : List α}
    {ys : List β} {zs : List γ} (hR : List.Forall₂ R xs ys) (hS : List.Forall₂ S xs zs)
    (h : ∀ x ∈ xs, ∀ y z, R x y → S x z → T y z) : List.Forall₂ T ys zs := by
  induction hR generalizing zs with
  | nil =>
      cases hS
      exact .nil
  | cons hxy _ ih =>
      obtain _ | ⟨hxz, hrest⟩ := hS
      exact .cons (h _ List.mem_cons_self _ _ hxy hxz)
        (ih hrest fun x hx => h x (List.mem_cons_of_mem _ hx))

/-- The same with the partners side by side. -/
theorem forall₂_zip {R : α → β → Prop} {S : α → γ → Prop} {T : β × γ → α → Prop} {xs : List α}
    {ys : List β} {zs : List γ} (hR : List.Forall₂ R xs ys) (hS : List.Forall₂ S xs zs)
    (h : ∀ x ∈ xs, ∀ y z, R x y → S x z → T (y, z) x) : List.Forall₂ T (ys.zip zs) xs := by
  induction hR generalizing zs with
  | nil => exact .nil
  | cons hxy _ ih =>
      obtain _ | ⟨hxz, hrest⟩ := hS
      exact .cons (h _ List.mem_cons_self _ _ hxy hxz)
        (ih hrest fun x hx => h x (List.mem_cons_of_mem _ hx))

/-! ## Work on lists -/

theorem map_eq_ok_iff {f : α → β} {x : Except ε α} {y : β} :
    x.map f = .ok y ↔ ∃ a, x = .ok a ∧ y = f a := by
  cases x <;> simp [Except.map, eq_comm]

theorem map_eq_error_iff {f : α → β} {x : Except ε α} {e : ε} :
    x.map f = .error e ↔ x = .error e := by
  cases x <;> simp [Except.map]

/-- Work on an entry, on the key before its value. -/
def onEntry {κ ν : Type} (f : κ → Except ε α) (g : ν → Except ε β) (e : κ × ν) :
    Except ε (α × β) := do
  return (← f e.1, ← g e.2)

section Entry

variable {κ ν : Type} {f : κ → Except ε α} {g : ν → Except ε β} {e : κ × ν}

theorem onEntry_eq_ok_iff {d : α × β} :
    onEntry f g e = .ok d ↔ f e.1 = .ok d.1 ∧ g e.2 = .ok d.2 := by
  obtain ⟨x, y⟩ := d
  unfold onEntry
  cases f e.1 with
  | error e' => simp [bind, Except.bind]
  | ok x' => cases g e.2 <;> simp [bind, Except.bind, pure, Except.pure]

theorem onEntry_eq_error_iff {e' : ε} : onEntry f g e = .error e' ↔
    f e.1 = .error e' ∨ (∃ x, f e.1 = .ok x) ∧ g e.2 = .error e' := by
  unfold onEntry
  cases f e.1 with
  | error e'' => simp [bind, Except.bind]
  | ok x => cases g e.2 <;> simp [bind, Except.bind, pure, Except.pure]

end Entry

/-- Work on a list succeeds with the results of its elements. -/
theorem mapM_eq_ok_iff {f : α → Except ε β} {xs : List α} {ys : List β} :
    xs.mapM f = .ok ys ↔ List.Forall₂ (fun x y => f x = .ok y) xs ys := by
  induction xs generalizing ys with
  | nil => cases ys <;> simp [pure, Except.pure]
  | cons x xs ih =>
      rw [List.mapM_cons]
      cases hx : f x with
      | error e => cases ys <;> simp [bind, Except.bind, hx]
      | ok y =>
          cases hrest : xs.mapM f with
          | error e => cases ys <;> simp [bind, Except.bind, hx, hrest, ← ih]
          | ok zs => cases ys <;> simp [bind, Except.bind, pure, Except.pure, hx, hrest, ← ih]

/-- Work on a list fails with what the work on the first of its elements that fails does. -/
theorem exists_first_of_mapM_eq_error {f : α → Except ε β} {xs : List α} {e : ε}
    (h : xs.mapM f = .error e) : ∃ (i : Nat) (x : α), xs[i]? = some x ∧ f x = .error e ∧
      ∀ j < i, ∀ y, xs[j]? = some y → ∃ z, f y = .ok z := by
  induction xs with
  | nil => simp [pure, Except.pure] at h
  | cons x xs ih =>
      rw [List.mapM_cons] at h
      cases hx : f x with
      | error e' =>
          simp only [hx, bind, Except.bind, Except.error.injEq] at h
          exact ⟨0, x, rfl, h ▸ hx, fun j hj => absurd hj (Nat.not_lt_zero j)⟩
      | ok y =>
          cases hrest : xs.mapM f with
          | error e' =>
              simp only [hx, hrest, bind, Except.bind, Except.error.injEq] at h
              obtain ⟨i, x', hi, he, hbefore⟩ := ih (h ▸ hrest)
              refine ⟨i + 1, x', hi, he, fun j hj z hz => ?_⟩
              cases j with
              | zero =>
                  cases hz
                  exact ⟨y, hx⟩
              | succ j => exact hbefore j (Nat.lt_of_succ_lt_succ hj) z hz
          | ok zs => simp [hx, hrest, bind, Except.bind, pure, Except.pure] at h

theorem exists_of_mapM_eq_error {f : α → Except ε β} {xs : List α} {e : ε}
    (h : xs.mapM f = .error e) : ∃ x ∈ xs, f x = .error e := by
  obtain ⟨i, x, hi, hx, -⟩ := exists_first_of_mapM_eq_error h
  exact ⟨x, List.mem_of_getElem? hi, hx⟩

end Lists

namespace Value

attribute [simp] WellFormed AllWellFormed EntriesWellFormed objectsOfAll objectsOfEntries matches?
  allMatch fieldsMatch entriesMatch

/-- **Induction over values**: what holds of a value if it holds of its parts holds of all. -/
@[elab_as_elim]
theorem induction {motive : Value → Prop} (scalar : ∀ s x, motive (.scalar s x))
    (vector : ∀ xs, (∀ x ∈ xs, motive x) → motive (.vector xs))
    (tuple : ∀ xs, (∀ x ∈ xs, motive x) → motive (.tuple xs))
    (map : ∀ es, (∀ e ∈ es, motive e.1 ∧ motive e.2) → motive (.map es)) (v : Value) : motive v :=
  @Value.rec motive (fun xs => ∀ x ∈ xs, motive x) (fun es => ∀ e ∈ es, motive e.1 ∧ motive e.2)
    (fun e => motive e.1 ∧ motive e.2) scalar vector tuple map
    (fun _ h => nomatch h) (fun _ _ hx hxs => List.forall_mem_cons.2 ⟨hx, hxs⟩)
    (fun _ h => nomatch h) (fun _ _ he hes => List.forall_mem_cons.2 ⟨he, hes⟩)
    (fun _ _ hx hy => ⟨hx, hy⟩) v

/-! ## Maps that are maps -/

theorem allWellFormed_iff {xs : List Value} : AllWellFormed xs ↔ ∀ x ∈ xs, x.WellFormed := by
  induction xs with
  | nil => simp
  | cons x xs ih => simp [ih]

theorem entriesWellFormed_iff {es : List (Value × Value)} :
    EntriesWellFormed es ↔ ∀ e ∈ es, e.1.WellFormed ∧ e.2.WellFormed := by
  induction es with
  | nil => simp
  | cons e es ih => simp [ih, and_assoc]

/-- A map that is made of entries is a map. -/
theorem wellFormed_ofEntries {es : List (Value × Value)}
    (h : ∀ e ∈ es, e.1.WellFormed ∧ e.2.WellFormed) : (ofEntries es).WellFormed :=
  ⟨Entries.sorted_collect es,
    entriesWellFormed_iff.2 fun e he => h e (Entries.mem_of_mem_collect he)⟩

/-! ## Objects -/

theorem objects_scalar {s : Scalar} (x : s.Carrier) (h : s ≠ .object) :
    (scalar s x).objects = [] := by
  cases s <;> first | rfl | exact absurd rfl h

theorem mem_objectsOfAll {o : ObjectId} {xs : List Value} :
    o ∈ objectsOfAll xs ↔ ∃ x ∈ xs, o ∈ x.objects := by
  induction xs with
  | nil => simp
  | cons x xs ih => simp [ih]

theorem mem_objectsOfEntries {o : ObjectId} {es : List (Value × Value)} :
    o ∈ objectsOfEntries es ↔ ∃ e ∈ es, o ∈ e.1.objects ∨ o ∈ e.2.objects := by
  induction es with
  | nil => simp
  | cons e es ih => simp [ih, or_assoc]

theorem objectsOfAll_eq_nil_iff {xs : List Value} :
    objectsOfAll xs = [] ↔ ∀ x ∈ xs, x.objects = [] := by
  induction xs with
  | nil => simp
  | cons x xs ih => simp [ih]

theorem objectsOfEntries_eq_nil_iff {es : List (Value × Value)} :
    objectsOfEntries es = [] ↔ ∀ e ∈ es, e.1.objects = [] ∧ e.2.objects = [] := by
  induction es with
  | nil => simp
  | cons e es ih => simp [ih, and_assoc]

/-! ## Shapes -/

theorem allMatch_iff {xs : List Value} {t : Shape} :
    allMatch xs t = true ↔ ∀ x ∈ xs, x.matches? t = true := by
  induction xs with
  | nil => simp
  | cons x xs ih => simp [ih]

theorem entriesMatch_iff {es : List (Value × Value)} {k v : Shape} :
    entriesMatch es k v = true ↔ ∀ e ∈ es, e.1.matches? k = true ∧ e.2.matches? v = true := by
  induction es with
  | nil => simp
  | cons e es ih => simp [ih, and_assoc]

theorem fieldsMatch_iff {xs : List Value} {ts : List Shape} :
    fieldsMatch xs ts = true ↔ List.Forall₂ (fun x t => x.matches? t = true) xs ts := by
  induction xs generalizing ts with
  | nil => cases ts <;> simp
  | cons x xs ih => cases ts <;> simp [ih]

theorem matches_scalar_iff {v : Value} {s : Scalar} : v.matches? (.scalar s) = true ↔
    ∃ x, v = .scalar s x := by
  constructor
  · intro h
    cases v with
    | scalar r x =>
        rw [matches?, decide_eq_true_eq] at h
        subst h
        exact ⟨x, rfl⟩
    | _ => simp at h
  · rintro ⟨x, rfl⟩
    simp

theorem matches_vector_iff {v : Value} {t : Shape} : v.matches? (.vector t) = true ↔
    t.isValid = true ∧ ∃ xs, v = .vector xs ∧ ∀ x ∈ xs, x.matches? t = true := by
  cases v <;> simp [allMatch_iff]

theorem matches_map_iff {v : Value} {k w : Shape} : v.matches? (.map k w) = true ↔
    (k.isValid = true ∧ w.isValid = true) ∧ ∃ es, v = .map es ∧
      ∀ e ∈ es, e.1.matches? k = true ∧ e.2.matches? w = true := by
  cases v <;> simp [entriesMatch_iff]

theorem matches_tuple_iff {v : Value} {ts : List Shape} : v.matches? (.tuple ts) = true ↔
    ∃ xs, v = .tuple xs ∧ List.Forall₂ (fun x t => x.matches? t = true) xs ts := by
  cases v <;> simp [fieldsMatch_iff]

/-! The same from the side of the value. -/

theorem scalar_matches_iff {s : Scalar} {x : s.Carrier} {t : Shape} :
    (scalar s x).matches? t = true ↔ t = .scalar s := by
  cases t <;> simp [eq_comm]

theorem vector_matches_iff {xs : List Value} {t : Shape} : (vector xs).matches? t = true ↔
    ∃ e, t = .vector e ∧ e.isValid = true ∧ ∀ x ∈ xs, x.matches? e = true := by
  cases t <;> simp [allMatch_iff]

theorem tuple_matches_iff {xs : List Value} {t : Shape} : (tuple xs).matches? t = true ↔
    ∃ ts, t = .tuple ts ∧ List.Forall₂ (fun x t => x.matches? t = true) xs ts := by
  cases t <;> simp [fieldsMatch_iff]

theorem map_matches_iff {es : List (Value × Value)} {t : Shape} : (map es).matches? t = true ↔
    ∃ k w, t = .map k w ∧ (k.isValid = true ∧ w.isValid = true) ∧
      ∀ e ∈ es, e.1.matches? k = true ∧ e.2.matches? w = true := by
  cases t <;> simp [entriesMatch_iff]

end Value

end ObjectBus
