import ObjectBus.Shape.Signature

/-!
# The parts of a shape

What a shape is made of, at every depth (`Shape.PartOf`). Two questions about a shape are questions
about its parts: a shape is valid if and only if none of its parts is `invalid`, and it has a
signature if and only if, besides, none of its maps has a container for its key
(`Shape.letters?_isSome_iff`). A third one is whether an object stands somewhere in it: only then does
putting paths for objects change it.
-/

set_option autoImplicit false

namespace ObjectBus.Shape

/-- **The parts of a shape**: itself, and the parts of its element, of its key and its value, or of
its fields. -/
inductive PartOf : Shape → Shape → Prop
  | self (t : Shape) : PartOf t t
  | element {p e : Shape} (h : PartOf p e) : PartOf p (.vector e)
  | key {p k v : Shape} (h : PartOf p k) : PartOf p (.map k v)
  | value {p k v : Shape} (h : PartOf p v) : PartOf p (.map k v)
  | field {p f : Shape} {fs : List Shape} (hf : f ∈ fs) (h : PartOf p f) : PartOf p (.tuple fs)

/-- Whether the shape is a vector, map or tuple. -/
def isContainer : Shape → Bool
  | .vector _ => true
  | .map _ _ => true
  | .tuple _ => true
  | _ => false

/-- **No map in the shape has a container for its key.** -/
def HasPlainKeys (t : Shape) : Prop := ∀ k v, (map k v).PartOf t → k.isContainer = false

/-- **Induction over shapes**: what holds of a shape if it holds of its parts holds of all. -/
@[elab_as_elim]
theorem induction {motive : Shape → Prop} (invalid : motive .invalid)
    (scalar : ∀ s, motive (.scalar s)) (vector : ∀ e, motive e → motive (.vector e))
    (map : ∀ k v, motive k → motive v → motive (.map k v))
    (tuple : ∀ fs, (∀ f ∈ fs, motive f) → motive (.tuple fs)) (t : Shape) : motive t :=
  @Shape.rec motive (fun fs => ∀ f ∈ fs, motive f) invalid scalar vector map tuple
    (fun _ h => nomatch h) (fun _ _ hf hfs => List.forall_mem_cons.2 ⟨hf, hfs⟩) t

/-! ## Parts, one level at a time -/

variable {p : Shape}

@[simp] theorem partOf_invalid_iff : p.PartOf .invalid ↔ p = .invalid := by
  constructor
  · rintro ⟨⟩
    rfl
  · rintro rfl
    exact .self _

@[simp] theorem partOf_scalar_iff {s : Scalar} : p.PartOf (.scalar s) ↔ p = .scalar s := by
  constructor
  · rintro ⟨⟩
    rfl
  · rintro rfl
    exact .self _

@[simp] theorem partOf_vector_iff {e : Shape} :
    p.PartOf (.vector e) ↔ p = .vector e ∨ p.PartOf e := by
  constructor
  · rintro (_ | h)
    · exact Or.inl rfl
    · exact Or.inr h
  · rintro (rfl | h)
    · exact .self _
    · exact .element h

@[simp] theorem partOf_map_iff {k v : Shape} :
    p.PartOf (.map k v) ↔ p = .map k v ∨ p.PartOf k ∨ p.PartOf v := by
  constructor
  · rintro (_ | _ | h | h)
    · exact Or.inl rfl
    · exact Or.inr (Or.inl h)
    · exact Or.inr (Or.inr h)
  · rintro (rfl | h | h)
    · exact .self _
    · exact .key h
    · exact .value h

@[simp] theorem partOf_tuple_iff {fs : List Shape} :
    p.PartOf (.tuple fs) ↔ p = .tuple fs ∨ ∃ f ∈ fs, p.PartOf f := by
  constructor
  · rintro (_ | _ | _ | _ | ⟨hf, h⟩)
    · exact Or.inl rfl
    · exact Or.inr ⟨_, hf, h⟩
  · rintro (rfl | ⟨f, hf, h⟩)
    · exact .self _
    · exact .field hf h

/-! ## Validity -/

theorem allValid_iff {fs : List Shape} : allValid fs = true ↔ ∀ f ∈ fs, f.isValid = true := by
  induction fs with
  | nil => simp [allValid]
  | cons f fs ih => simp [allValid, ih]

/-- **A shape is valid if and only if none of its parts is `invalid`.** -/
theorem isValid_iff {t : Shape} : t.isValid = true ↔ ¬invalid.PartOf t := by
  induction t using Shape.induction with
  | invalid => simp [isValid]
  | scalar s => simp [isValid]
  | vector e ih => simp [isValid, ih]
  | map k v ihk ihv => simp [isValid, ihk, ihv]
  | tuple fs ih =>
      rw [isValid, allValid_iff]
      simp only [partOf_tuple_iff, reduceCtorEq, false_or, not_exists, not_and]
      exact forall₂_congr ih

/-- A part of a shape that is neither `invalid` nor a container is a scalar. -/
theorem isScalar_iff {t : Shape} (h : t.isValid = true) :
    t.isScalar = true ↔ t.isContainer = false := by
  cases t with
  | invalid => cases h
  | _ => simp [isScalar, isContainer]

/-! ## Plain keys, one level at a time -/

theorem hasPlainKeys_vector_iff {e : Shape} : (vector e).HasPlainKeys ↔ e.HasPlainKeys := by
  simp [HasPlainKeys]

theorem hasPlainKeys_map_iff {k v : Shape} : (map k v).HasPlainKeys ↔
    k.isContainer = false ∧ k.HasPlainKeys ∧ v.HasPlainKeys := by
  constructor
  · intro h
    exact ⟨h k v (.self _), fun l w hl => h l w (.key hl), fun l w hl => h l w (.value hl)⟩
  · rintro ⟨hk, hks, hvs⟩ l w hl
    rcases partOf_map_iff.1 hl with heq | hl | hl
    · cases heq
      exact hk
    · exact hks l w hl
    · exact hvs l w hl

theorem hasPlainKeys_tuple_iff {fs : List Shape} :
    (tuple fs).HasPlainKeys ↔ ∀ f ∈ fs, f.HasPlainKeys := by
  constructor
  · intro h f hf l w hl
    exact h l w (.field hf hl)
  · intro h l w hl
    rcases partOf_tuple_iff.1 hl with heq | ⟨f, hf, hl⟩
    · cases heq
    · exact h f hf l w hl

/-! ## Which shapes have a signature -/

theorem allLetters?_isSome_iff {fs : List Shape} :
    (allLetters? fs).isSome = true ↔ ∀ f ∈ fs, f.letters?.isSome = true := by
  induction fs with
  | nil => simp [allLetters?]
  | cons f fs ih =>
      rw [List.forall_mem_cons, ← ih, allLetters?]
      cases f.letters? <;> cases allLetters? fs <;> simp

/-- **A shape has a signature if and only if it is valid and its keys are plain.** -/
theorem letters?_isSome_iff {t : Shape} :
    t.letters?.isSome = true ↔ t.isValid = true ∧ t.HasPlainKeys := by
  induction t using Shape.induction with
  | invalid => simp [letters?, isValid]
  | scalar s => simp [letters?, isValid, HasPlainKeys]
  | vector e ih => rw [letters?, Option.isSome_map, ih, isValid, hasPlainKeys_vector_iff]
  | map k v ihk ihv =>
      have hparts : (map k v).letters?.isSome = true ↔
          k.isScalar = true ∧ k.letters?.isSome = true ∧ v.letters?.isSome = true := by
        rw [letters?]
        cases k.isScalar <;> cases k.letters? <;> cases v.letters? <;> simp
      rw [hparts, ihk, ihv, hasPlainKeys_map_iff, isValid, Bool.and_eq_true]
      -- the two readings of a plain key agree on valid shapes
      constructor
      · rintro ⟨hk, ⟨hkv, hks⟩, hvv, hvs⟩
        exact ⟨⟨hkv, hvv⟩, (isScalar_iff hkv).1 hk, hks, hvs⟩
      · rintro ⟨⟨hkv, hvv⟩, hk, hks, hvs⟩
        exact ⟨(isScalar_iff hkv).2 hk, ⟨hkv, hks⟩, hvv, hvs⟩
  | tuple fs ih =>
      rw [letters?, Option.isSome_map, allLetters?_isSome_iff, isValid, allValid_iff,
        hasPlainKeys_tuple_iff, forall₂_congr ih]
      constructor
      · intro h
        exact ⟨fun f hf => (h f hf).1, fun f hf => (h f hf).2⟩
      · rintro ⟨hvalid, hkeys⟩ f hf
        exact ⟨hvalid f hf, hkeys f hf⟩

/-! ## Paths for objects -/

/-- Putting paths for objects changes a shape if and only if an object stands in it. -/
theorem withPaths_eq_self_iff {t : Shape} :
    t.withPaths = t ↔ ¬(scalar .object).PartOf t := by
  induction t using Shape.induction with
  | invalid => simp [withPaths]
  | scalar s => cases s <;> simp [withPaths]
  | vector e ih => simp [withPaths, ih]
  | map k v ihk ihv => simp [withPaths, ihk, ihv]
  | tuple fs ih =>
      have hfields : allWithPaths fs = fs ↔ ∀ f ∈ fs, f.withPaths = f := by
        clear ih
        induction fs with
        | nil => simp [allWithPaths]
        | cons f fs ih => simp [allWithPaths, ih]
      rw [withPaths, tuple.injEq, hfields]
      simp only [partOf_tuple_iff, reduceCtorEq, false_or, not_exists, not_and]
      exact forall₂_congr ih

mutual
/-- **An object is written as a path is**, so putting paths for objects does not change a
signature. -/
theorem letters?_withPaths : (t : Shape) → t.withPaths.letters? = t.letters?
  | .invalid => rfl
  | .scalar s => by cases s <;> rfl
  | .vector e => by rw [withPaths, letters?, letters?, letters?_withPaths e]
  | .map k v => by
      have hk : k.withPaths.isScalar = k.isScalar := by
        cases k with
        | scalar s => cases s <;> rfl
        | _ => rfl
      rw [withPaths, letters?, letters?, hk, letters?_withPaths k, letters?_withPaths v]
  | .tuple fs => by rw [withPaths, letters?, letters?, allLetters?_allWithPaths fs]

theorem allLetters?_allWithPaths : (fs : List Shape) →
    allLetters? (allWithPaths fs) = allLetters? fs
  | [] => rfl
  | f :: fs => by
      rw [allWithPaths, allLetters?, allLetters?, letters?_withPaths f,
        allLetters?_allWithPaths fs]
end

/-- Comparing a shape with itself says that they are equal. -/
theorem beq_self (t : Shape) : t.beq t = true := by
  induction t using Shape.induction with
  | invalid => rfl
  | scalar s => simp [beq]
  | vector e ih => simpa [beq] using ih
  | map k v ihk ihv => simp [beq, ihk, ihv]
  | tuple fs ih =>
      rw [beq]
      induction fs with
      | nil => rfl
      | cons f fs ihfs =>
          rw [beqAll, ih f List.mem_cons_self,
            ihfs fun g hg => ih g (List.mem_cons_of_mem f hg)]
          rfl

mutual
/-- Only equal shapes compare as equal. -/
theorem eq_of_beq : (s t : Shape) → s.beq t = true → s = t
  | .invalid, t, h => by
      cases t with
      | invalid => rfl
      | _ => simp [beq] at h
  | .scalar a, t, h => by
      cases t with
      | scalar b => simpa [beq] using h
      | _ => simp [beq] at h
  | .vector e, t, h => by
      cases t with
      | vector f =>
          rw [beq] at h
          rw [eq_of_beq e f h]
      | _ => simp [beq] at h
  | .map k v, t, h => by
      cases t with
      | map l w =>
          rw [beq, Bool.and_eq_true] at h
          rw [eq_of_beq k l h.1, eq_of_beq v w h.2]
      | _ => simp [beq] at h
  | .tuple fs, t, h => by
      cases t with
      | tuple gs =>
          rw [beq] at h
          rw [eq_of_beqAll fs gs h]
      | _ => simp [beq] at h

theorem eq_of_beqAll : (fs gs : List Shape) → beqAll fs gs = true → fs = gs
  | [], [], _ => rfl
  | f :: fs, g :: gs, h => by
      rw [beqAll, Bool.and_eq_true] at h
      rw [eq_of_beq f g h.1, eq_of_beqAll fs gs h.2]
  | [], _ :: _, h => by simp [beqAll] at h
  | _ :: _, [], h => by simp [beqAll] at h
end

instance : LawfulBEq Shape where
  eq_of_beq h := eq_of_beq _ _ h
  rfl {t} := beq_self t

end ObjectBus.Shape
