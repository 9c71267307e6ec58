import ObjectBus.Error
import ObjectBus.Proofs.Shape.Parts

/-!
# Signatures, written and read

Writing and reading a signature are two separate programs: the writer goes down the shape, the reader
goes along the text and tells a vector from a map by one letter ahead. Here each is shown to undo the
other.

* What was written is read, whatever stands behind it (`readOne_letters`): the reader takes the
  signature and leaves the rest. So one look ahead is enough, and the fuel is too.
* What was read was written (`letters?_of_read`): the reader accepts nothing but a signature, and
  takes all of it.

An object is written as a path is, so reading gives the shape with paths for objects, and shapes that
differ in nothing else share a signature.
-/

set_option autoImplicit false

namespace ObjectBus

/-- Only the letter of a scalar stands for it, and none stands for an object. -/
theorem Scalar.letter_of_ofLetter? {c : Char} {s : Scalar} (h : Scalar.ofLetter? c = some s) :
    s.letter = c ∧ s ≠ .object := by
  unfold Scalar.ofLetter? at h
  split at h <;> cases h <;> exact ⟨rfl, nofun⟩

namespace Shape

/-! ## What a signature begins with -/

/-- **A signature begins with a letter that neither makes a vector a map nor ends a tuple.** -/
theorem exists_cons_of_letters? {t : Shape} {cs : List Char} (h : t.letters? = some cs) :
    ∃ c ds, cs = c :: ds ∧ c ≠ '{' ∧ c ≠ ')' := by
  cases t with
  | invalid => cases h
  | scalar s =>
      cases h
      exact ⟨_, _, rfl, by cases s <;> decide, by cases s <;> decide⟩
  | vector e =>
      obtain ⟨ds, -, rfl⟩ := Option.map_eq_some_iff.1 h
      exact ⟨_, _, rfl, by decide, by decide⟩
  | map k v =>
      rw [letters?] at h
      split at h
      · split at h
        · cases h
          exact ⟨_, _, rfl, by decide, by decide⟩
        · cases h
      · cases h
  | tuple fs =>
      obtain ⟨ds, -, rfl⟩ := Option.map_eq_some_iff.1 h
      exact ⟨_, _, rfl, by decide, by decide⟩

/-- The parts of the signature of a map. -/
theorem letters?_map_eq_some_iff {k v : Shape} {cs : List Char} :
    (map k v).letters? = some cs ↔ k.isScalar = true ∧ ∃ ks vs, k.letters? = some ks ∧
      v.letters? = some vs ∧ cs = 'a' :: '{' :: (ks ++ vs ++ ['}']) := by
  rw [letters?]
  cases k.isScalar with
  | false => simp
  | true => cases k.letters? <;> cases v.letters? <;> simp [eq_comm]

/-- The parts of the signatures of fields. -/
theorem allLetters?_cons_eq_some_iff {f : Shape} {fs : List Shape} {cs : List Char} :
    allLetters? (f :: fs) = some cs ↔ ∃ ds es, f.letters? = some ds ∧
      allLetters? fs = some es ∧ cs = ds ++ es := by
  rw [allLetters?]
  cases f.letters? <;> cases allLetters? fs <;> simp [eq_comm]

/-! ## What was written is read -/

/-- Whether the key of a map is a scalar does not depend on objects and paths. -/
theorem isScalar_withPaths (t : Shape) : t.withPaths.isScalar = t.isScalar := by
  cases t with
  | scalar s => cases s <;> rfl
  | _ => rfl

/-- The letter of a scalar is read as the scalar. -/
theorem readOne_scalar (s : Scalar) (rest : List Char) (fuel : Nat) :
    readOne (fuel + 1) (s.letter :: rest) = .ok ((scalar s).withPaths, rest) := by
  cases s <;> rfl

mutual
/-- **What was written is read, whatever stands behind it.** Of the fuel, two for each letter but one
are enough. -/
theorem readOne_letters : (t : Shape) → (cs : List Char) → t.letters? = some cs →
    ∀ (rest : List Char) (fuel : Nat), 2 * cs.length ≤ fuel + 1 →
      readOne fuel (cs ++ rest) = .ok (t.withPaths, rest)
  | .invalid, _, h, _, _, _ => nomatch h
  | .scalar s, cs, h, rest, fuel, hfuel => by
      cases h
      obtain ⟨fuel, rfl⟩ : ∃ n, fuel = n + 1 := ⟨fuel - 1, by simp at hfuel; omega⟩
      exact readOne_scalar s rest fuel
  | .vector e, cs, h, rest, fuel, hfuel => by
      obtain ⟨ds, hds, rfl⟩ := Option.map_eq_some_iff.1 h
      obtain ⟨fuel, rfl⟩ : ∃ n, fuel = n + 1 := ⟨fuel - 1, by simp at hfuel; omega⟩
      have he := readOne_letters e ds hds rest fuel (by simp at hfuel; omega)
      -- the element does not begin as the entry of a map does
      obtain ⟨c, es, rfl, hc, -⟩ := exists_cons_of_letters? hds
      rw [List.cons_append] at he
      rw [List.cons_append, List.cons_append, readOne, he, withPaths]
      intro gs hgs
      exact hc (List.cons.inj hgs).1
  | .map k v, cs, h, rest, fuel, hfuel => by
      obtain ⟨hk, ks, vs, hks, hvs, rfl⟩ := letters?_map_eq_some_iff.1 h
      obtain ⟨fuel, rfl⟩ : ∃ n, fuel = n + 1 := ⟨fuel - 1, by simp at hfuel; omega⟩
      have hkey := readOne_letters k ks hks (vs ++ '}' :: rest) fuel
        (by simp at hfuel; omega)
      have hvalue := readOne_letters v vs hvs ('}' :: rest) fuel (by simp at hfuel; omega)
      have htext : 'a' :: '{' :: (ks ++ vs ++ ['}']) ++ rest =
          'a' :: '{' :: (ks ++ (vs ++ '}' :: rest)) := by simp
      rw [htext, readOne, hkey]
      show (if k.withPaths.isScalar = true then _ else _) = _
      rw [isScalar_withPaths, if_pos hk, hvalue]
      rfl
  | .tuple fs, cs, h, rest, fuel, hfuel => by
      obtain ⟨ds, hds, rfl⟩ := Option.map_eq_some_iff.1 h
      obtain ⟨fuel, rfl⟩ : ∃ n, fuel = n + 1 := ⟨fuel - 1, by simp at hfuel; omega⟩
      have hfields := readFields_letters fs ds hds rest fuel (by simp at hfuel; omega)
      have htext : '(' :: (ds ++ [')']) ++ rest = '(' :: (ds ++ ')' :: rest) := by simp
      rw [htext, readOne, hfields, withPaths]

theorem readFields_letters : (fs : List Shape) → (cs : List Char) → allLetters? fs = some cs →
    ∀ (rest : List Char) (fuel : Nat), 2 * cs.length + 1 ≤ fuel →
      readFields fuel (cs ++ ')' :: rest) = .ok (allWithPaths fs, rest)
  | [], cs, h, rest, fuel, hfuel => by
      cases h
      obtain ⟨fuel, rfl⟩ : ∃ n, fuel = n + 1 := ⟨fuel - 1, by omega⟩
      rfl
  | f :: fs, cs, h, rest, fuel, hfuel => by
      obtain ⟨ds, es, hds, hes, rfl⟩ := allLetters?_cons_eq_some_iff.1 h
      obtain ⟨fuel, rfl⟩ : ∃ n, fuel = n + 1 := ⟨fuel - 1, by omega⟩
      -- the field takes a letter at least, so that fuel is left for the other fields
      obtain ⟨c, gs, rfl, -, hc⟩ := exists_cons_of_letters? hds
      simp only [List.length_append, List.length_cons] at hfuel
      have hfield := readOne_letters f (c :: gs) hds (es ++ ')' :: rest) fuel
        (by rw [List.length_cons]; omega)
      have hrest := readFields_letters fs es hes rest fuel (by omega)
      rw [List.append_assoc, readFields, hfield]
      · show (match readFields fuel (es ++ ')' :: rest) with
          | .error e => _
          | .ok (fs, cs) => _) = _
        rw [hrest, allWithPaths]
      · simp
      · intro is his
        exact hc (List.cons.inj his).1
end

/-! ## What was read was written -/

/-- **The ways in which one shape is read**: a letter, a vector, a map or a tuple. -/
theorem readOne_cases {fuel : Nat} {cs rest : List Char} {t : Shape}
    (h : readOne (fuel + 1) cs = .ok (t, rest)) :
    (∃ s, s ≠ Scalar.object ∧ cs = s.letter :: rest ∧ t = .scalar s) ∨
    (∃ e ds, cs = 'a' :: ds ∧ readOne fuel ds = .ok (e, rest) ∧ t = .vector e) ∨
    (∃ k v ds es, cs = 'a' :: '{' :: ds ∧ readOne fuel ds = .ok (k, es) ∧ k.isScalar = true ∧
      readOne fuel es = .ok (v, '}' :: rest) ∧ t = .map k v) ∨
    ∃ fs ds, cs = '(' :: ds ∧ readFields fuel ds = .ok (fs, rest) ∧ t = .tuple fs := by
  unfold readOne at h
  split at h
  · cases h
  · cases h
  · next ds heq =>
      cases heq
      split at h
      · cases h
      · next k es hk =>
          split at h
          · next hscalar =>
              split at h
              · cases h
              · next v gs hv =>
                  cases h
                  exact Or.inr (Or.inr (Or.inl ⟨k, v, ds, es, rfl, hk, hscalar, hv, rfl⟩))
              · cases h
          · cases h
  · next ds _ heq =>
      cases heq
      split at h
      · cases h
      · next e gs he =>
          cases h
          exact Or.inr (Or.inl ⟨e, ds, rfl, he, rfl⟩)
  · next ds heq =>
      cases heq
      split at h
      · cases h
      · next fs gs hfs =>
          cases h
          exact Or.inr (Or.inr (Or.inr ⟨fs, ds, rfl, hfs, rfl⟩))
  · split at h
    · next s hs =>
        cases h
        obtain ⟨rfl, hne⟩ := Scalar.letter_of_ofLetter? hs
        exact Or.inl ⟨s, hne, rfl, rfl⟩
    · cases h

/-- **The ways in which fields are read**: none is left, or there is one more. -/
theorem readFields_cases {fuel : Nat} {cs rest : List Char} {fs : List Shape}
    (h : readFields (fuel + 1) cs = .ok (fs, rest)) :
    (cs = ')' :: rest ∧ fs = []) ∨
    ∃ f gs ds, readOne fuel cs = .ok (f, ds) ∧ readFields fuel ds = .ok (gs, rest) ∧
      fs = f :: gs := by
  unfold readFields at h
  split at h
  · cases h
  · cases h
  · cases h
    exact Or.inl ⟨rfl, rfl⟩
  · next heq _ _ =>
      cases heq
      split at h
      · cases h
      · next f ds hf =>
          split at h
          · cases h
          · next gs es hgs =>
              cases h
              exact Or.inr ⟨f, gs, ds, hf, hgs, rfl⟩

/-- **What was read was written.** The reader takes the signature of what it gives, and it gives no
object. The induction is on the fuel, for shapes and for fields at once. -/
theorem letters?_of_read (fuel : Nat) :
    (∀ cs t rest, readOne fuel cs = .ok (t, rest) →
      ∃ used, t.letters? = some used ∧ cs = used ++ rest ∧ t.withPaths = t) ∧
    ∀ cs fs rest, readFields fuel cs = .ok (fs, rest) →
      ∃ used, allLetters? fs = some used ∧ cs = used ++ ')' :: rest ∧ allWithPaths fs = fs := by
  induction fuel with
  | zero => exact ⟨nofun, nofun⟩
  | succ fuel ih =>
      obtain ⟨ihOne, ihFields⟩ := ih
      constructor
      · intro cs t rest h
        rcases readOne_cases h with ⟨s, hs, rfl, rfl⟩ | ⟨e, ds, rfl, he, rfl⟩ |
          ⟨k, v, ds, es, rfl, hk, hscalar, hv, rfl⟩ | ⟨fs, ds, rfl, hfs, rfl⟩
        · exact ⟨_, rfl, rfl, withPaths_eq_self_iff.2 (by simp [hs.symm])⟩
        · obtain ⟨used, hused, rfl, hpaths⟩ := ihOne ds e rest he
          exact ⟨'a' :: used, by rw [letters?, hused]; rfl, rfl, by rw [withPaths, hpaths]⟩
        · obtain ⟨ks, hks, rfl, hkpaths⟩ := ihOne ds k es hk
          obtain ⟨vs, hvs, rfl, hvpaths⟩ := ihOne es v _ hv
          exact ⟨_, letters?_map_eq_some_iff.2 ⟨hscalar, ks, vs, hks, hvs, rfl⟩, by simp,
            by rw [withPaths, hkpaths, hvpaths]⟩
        · obtain ⟨used, hused, rfl, hpaths⟩ := ihFields ds fs rest hfs
          exact ⟨'(' :: (used ++ [')']), by rw [letters?, hused]; rfl, by simp,
            by rw [withPaths, hpaths]⟩
      · intro cs fs rest h
        rcases readFields_cases h with ⟨rfl, rfl⟩ | ⟨f, gs, ds, hf, hgs, rfl⟩
        · exact ⟨[], rfl, rfl, rfl⟩
        · obtain ⟨fused, hfused, rfl, hfpaths⟩ := ihOne cs f ds hf
          obtain ⟨gused, hgused, rfl, hgpaths⟩ := ihFields ds gs rest hgs
          exact ⟨_, allLetters?_cons_eq_some_iff.2 ⟨fused, gused, hfused, hgused, rfl⟩, by simp,
            by rw [allWithPaths, hfpaths, hgpaths]⟩

/-- Reading a shape takes a letter at least. -/
theorem length_lt_of_readOne {fuel : Nat} {cs rest : List Char} {t : Shape}
    (h : readOne fuel cs = .ok (t, rest)) : rest.length < cs.length := by
  obtain ⟨used, hused, rfl, -⟩ := (letters?_of_read fuel).1 cs t rest h
  obtain ⟨c, ds, rfl, -, -⟩ := exists_cons_of_letters? hused
  simp only [List.length_append, List.length_cons]
  omega

/-- **The fuel is never used up**: where there are more than two for each letter, how many there are
makes no difference, not to a fault either. The induction is on one of the two amounts. -/
theorem read_eq_of_lt (m : Nat) :
    (∀ cs n, 2 * cs.length < m → 2 * cs.length < n → readOne m cs = readOne n cs) ∧
    ∀ cs n, 2 * cs.length + 1 < m → 2 * cs.length + 1 < n →
      readFields m cs = readFields n cs := by
  induction m with
  | zero => exact ⟨fun cs n h => by omega, fun cs n h => by omega⟩
  | succ m ih =>
      obtain ⟨ihOne, ihFields⟩ := ih
      constructor
      · intro cs n hm hn
        obtain ⟨n, rfl⟩ : ∃ k, n = k + 1 := ⟨n - 1, by omega⟩
        unfold readOne
        split
        · contradiction
        · rfl
        · next ds heq =>
            cases heq
            simp only [List.length_cons] at hm hn
            rw [ihOne ds n (by omega) (by omega)]
            cases hk : readOne n ds with
            | error e => rfl
            | ok r =>
                -- the key took a letter, so the value has fuel enough
                have hlen := length_lt_of_readOne hk
                simp only [ihOne r.2 n (by omega) (by omega)]
        · next ds _ heq =>
            cases heq
            simp only [List.length_cons] at hm hn
            rw [ihOne ds n (by omega) (by omega)]
        · next ds heq =>
            cases heq
            simp only [List.length_cons] at hm hn
            simp only [ihFields ds n (by omega) (by omega)]
        · simp
      · intro cs n hm hn
        obtain ⟨n, rfl⟩ : ∃ k, n = k + 1 := ⟨n - 1, by omega⟩
        unfold readFields
        split
        · contradiction
        · rfl
        · rfl
        · next heq _ _ =>
            cases heq
            rw [ihOne _ n (by omega) (by omega)]
            split
            · rfl
            · next f ds hf =>
                have hlen := length_lt_of_readOne hf
                simp only [ihFields ds n (by omega) (by omega)]

/-! ## Texts -/

theorem signature_eq_ok_iff {t : Shape} {s : String} :
    t.signature = .ok s ↔ t.letters? = some s.toList := by
  rw [Shape.signature, signature?]
  cases t.letters? with
  | none => simp
  | some cs =>
      rw [Option.map_some]
      simp [String.ext_iff]

/-- Only what the reader leaves nothing of is read as a whole. -/
theorem parse_of_readOne {s : String} {t : Shape} {rest : List Char}
    (h : readOne (2 * s.toList.length + 1) s.toList = .ok (t, rest)) :
    parse s = if rest = [] then .ok t
      else .error (.invalidSignature s SignatureFault.trailing.message) := by
  rw [parse, ofLetters, h]
  cases rest <;> rfl

/-- **A signature with a text behind it is read as far as it goes.** -/
theorem parse_append {t : Shape} {s : String} (h : t.signature = .ok s) (rest : String) :
    parse (s ++ rest) = if rest = "" then .ok t.withPaths
      else .error (.invalidSignature (s ++ rest) SignatureFault.trailing.message) := by
  have hread := readOne_letters t s.toList (signature_eq_ok_iff.1 h) rest.toList
    (2 * (s ++ rest).toList.length + 1) (by simp; omega)
  rw [← String.toList_append] at hread
  rw [parse_of_readOne hread]
  simp

theorem parse_of_signature {t : Shape} {s : String} (h : t.signature = .ok s) :
    parse s = .ok t.withPaths := by
  simpa using parse_append h ""

theorem exists_signature_iff {t : Shape} :
    (∃ s, t.signature = .ok s) ↔ ¬invalid.PartOf t ∧ t.HasPlainKeys := by
  rw [← isValid_iff, ← letters?_isSome_iff, Option.isSome_iff_exists]
  constructor
  · rintro ⟨s, hs⟩
    exact ⟨s.toList, signature_eq_ok_iff.1 hs⟩
  · rintro ⟨cs, hcs⟩
    exact ⟨String.ofList cs, signature_eq_ok_iff.2 (by rw [hcs, String.toList_ofList])⟩

/-! ## The two directions -/

/-- **Reading undoes writing.** A shape has a signature if and only if `invalid` is no part of it and
no map in it has a container for its key. Reading the signature gives the shape with paths for
objects, so two shapes have the same signature if and only if they differ in nothing but objects and
paths. -/
theorem signature_undone_by_reading (t : Shape) :
    ((∃ s, t.signature = .ok s) ↔ ¬invalid.PartOf t ∧ t.HasPlainKeys) ∧
    ∀ s, t.signature = .ok s → parse s = .ok t.withPaths ∧
      ∀ (u : Shape) (r : String), u.signature = .ok r → (r = s ↔ u.withPaths = t.withPaths) := by
  refine ⟨exists_signature_iff, fun s hs => ⟨parse_of_signature hs, fun u r hr => ?_⟩⟩
  constructor
  · rintro rfl
    have hparse := parse_of_signature hr
    rw [parse_of_signature hs] at hparse
    exact (Except.ok.inj hparse).symm
  · intro hpaths
    have hr := signature_eq_ok_iff.1 hr
    have hs := signature_eq_ok_iff.1 hs
    rw [← letters?_withPaths, hpaths, letters?_withPaths, hs] at hr
    exact (String.toList_inj.1 (Option.some.inj hr)).symm

/-- Objects and paths at every place where a signature can have them. -/
theorem signature_undone_below_entries :
    let t : Shape := .map (.scalar .object) (.tuple
      [.vector (.scalar .object), .map (.scalar .path) (.tuple []), .vector (.scalar .byte)])
    let u : Shape := .map (.scalar .path) (.tuple
      [.vector (.scalar .path), .map (.scalar .object) (.tuple []), .vector (.scalar .byte)])
    t.signature = .ok "a{o(aoa{o()}ay)}" ∧ u.signature = .ok "a{o(aoa{o()}ay)}" ∧
      parse "a{o(aoa{o()}ay)}" = .ok t.withPaths ∧ u.withPaths = t.withPaths := by
  intro t u
  have ht : t.signature = .ok "a{o(aoa{o()}ay)}" := rfl
  have hu : u.signature = .ok "a{o(aoa{o()}ay)}" := rfl
  obtain ⟨hparse, hsame⟩ := (signature_undone_by_reading t).2 _ ht
  exact ⟨ht, hu, hparse, (hsame u _ hu).1 rfl⟩

end Shape

end ObjectBus
