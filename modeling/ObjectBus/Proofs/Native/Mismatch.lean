import ObjectBus.Proofs.Native
import ObjectBus.Proofs.Value.Positions

/-!
# The first mismatch

Decoding stops at the first place where a value is not what the type encodes to. Here the place is a
position of the value: the first one, in the order in which values are gone through, whose part does
not fit the shape that the type has there (`FirstMisfit`). What decoding reports is that shape, and the
kind of that part; a tuple of the wrong length is reported as a whole, before any of its fields is
looked at.

The induction is over native types. A part of a container is decoded only if all parts before it have
been, and these have their shapes then, so that the first position within the part is the first one
within the container (`FirstMisfit.below`).
-/

set_option autoImplicit false

namespace ObjectBus

/-! ## Positions of one value -/

namespace Value

variable {v u : Value} {a b : Place} {p q : Position}

/-- No two parts of a value stand in its order side by side. -/
theorem place_eq_of_rank_eq (ha : (v.part? a).isSome) (hb : (v.part? b).isSome)
    (h : a.rank = b.rank) : a = b := by
  cases v <;> cases a <;> cases b <;> simp [part?] at ha hb <;> simp [Place.rank] at h ⊢ <;> omega

/-- Of two positions of a value, one is before the other. -/
theorem before_or_eq_or_before (hp : (v.at? p).isSome) (hq : (v.at? q).isSome) :
    p.Before q ∨ p = q ∨ q.Before p := by
  induction p generalizing v q with
  | nil =>
      cases q with
      | nil => exact .inr (.inl rfl)
      | cons b q => exact .inl .nil
  | cons a p ih =>
      cases q with
      | nil => exact .inr (.inr .nil)
      | cons b q =>
          obtain ⟨_, hp⟩ := Option.isSome_iff_exists.1 hp
          obtain ⟨_, hq⟩ := Option.isSome_iff_exists.1 hq
          obtain ⟨x, hx, hp⟩ := at?_cons_eq_some_iff.1 hp
          obtain ⟨y, hy, hq⟩ := at?_cons_eq_some_iff.1 hq
          rcases Nat.lt_trichotomy a.rank b.rank with hlt | heq | hlt
          · exact .inl (.rel hlt)
          · obtain rfl := place_eq_of_rank_eq (Option.isSome_of_eq_some hx)
              (Option.isSome_of_eq_some hy) heq
            rw [hx] at hy
            cases hy
            rcases ih (Option.isSome_of_eq_some hp) (Option.isSome_of_eq_some hq) with h | rfl | h
            · exact .inl (.cons h)
            · exact .inr (.inl rfl)
            · exact .inr (.inr (.cons h))
          · exact .inr (.inr (.rel hlt))

end Value

/-! ## Where a value first does not fit -/

/-- **The first position at which a value does not fit a shape**: `found` stands there where `expected`
was to stand, and at all positions before it the value fits. -/
structure FirstMisfit (v : Value) (t : Shape) (p : Position) (expected : Shape) (found : Value) :
    Prop where
  found_at : v.at? p = some found
  expected_at : t.at? p = some expected
  misfit : ¬found.Fits expected
  before : ∀ q, q.Before p → ∀ u, v.at? q = some u → ∃ e, t.at? q = some e ∧ u.Fits e

namespace FirstMisfit

variable {v found : Value} {t expected : Shape} {p : Position}

/-- A value that does not fit is its own first misfit. -/
theorem root (h : ¬v.Fits t) : FirstMisfit v t [] t v where
  found_at := rfl
  expected_at := rfl
  misfit := h
  before _ hq := nomatch hq

/-- **The first misfit of a part is that of the whole**, if the whole fits and all parts before it have
their shapes. -/
theorem below {u : Value} {f : Shape} {a : Place} (h : FirstMisfit u f p expected found)
    (hfit : v.Fits t) (hu : v.part? a = some u) (hf : t.part? a = some f)
    (hbefore : ∀ b w, b.rank < a.rank → v.part? b = some w →
      ∃ e, t.part? b = some e ∧ w.matches? e = true) :
    FirstMisfit v t (a :: p) expected found where
  found_at := Value.at?_cons_eq_some_iff.2 ⟨u, hu, h.found_at⟩
  expected_at := Shape.at?_cons_eq_some_iff.2 ⟨f, hf, h.expected_at⟩
  misfit := h.misfit
  before q hq w hw := by
    cases hq with
    | nil =>
        cases hw
        exact ⟨t, rfl, hfit⟩
    | rel hlt =>
        obtain ⟨x, hx, hw⟩ := Value.at?_cons_eq_some_iff.1 hw
        obtain ⟨e, he, hxe⟩ := hbefore _ x hlt hx
        obtain ⟨g, hg, hwg⟩ := (Value.matches_iff_fits.1 hxe).2 _ w hw
        exact ⟨g, Shape.at?_cons_eq_some_iff.2 ⟨e, he, hg⟩, hwg⟩
    | cons hq =>
        obtain ⟨x, hx, hw⟩ := Value.at?_cons_eq_some_iff.1 hw
        rw [hu] at hx
        cases hx
        obtain ⟨g, hg, hwg⟩ := h.before _ hq w hw
        exact ⟨g, Shape.at?_cons_eq_some_iff.2 ⟨f, hf, hg⟩, hwg⟩

/-- There is one first misfit at most. -/
theorem unique {p' : Position} {expected' : Shape} {found' : Value}
    (h : FirstMisfit v t p expected found) (h' : FirstMisfit v t p' expected' found') : p' = p := by
  rcases Value.before_or_eq_or_before (Option.isSome_of_eq_some h'.found_at)
    (Option.isSome_of_eq_some h.found_at) with hlt | heq | hlt
  · obtain ⟨e, he, hfit⟩ := h.before p' hlt found' h'.found_at
    rw [h'.expected_at] at he
    cases he
    exact absurd hfit h'.misfit
  · exact heq
  · obtain ⟨e, he, hfit⟩ := h'.before p hlt found h.found_at
    rw [h.expected_at] at he
    cases he
    exact absurd hfit h.misfit

/-- Whatever is before the first misfit, and does not hold it, has its shape. -/
theorem matches_before (h : FirstMisfit v t p expected found) (ht : t.isValid = true)
    {q : Position} {u : Value} (hq : q.Before p) (hne : ¬q <+: p) (hu : v.at? q = some u) :
    ∃ e, t.at? q = some e ∧ u.matches? e = true := by
  obtain ⟨e, he, -⟩ := h.before q hq u hu
  refine ⟨e, he, Value.matches_iff_fits.2 ⟨Shape.isValid_of_at? ht he, fun r w hw => ?_⟩⟩
  have hbelow : v.at? (q ++ r) = some w := by rw [Value.at?_append, hu, Option.bind_some, hw]
  obtain ⟨g, hg, hwg⟩ := h.before (q ++ r) (hq.append hne r) w hbelow
  rw [Shape.at?_append, he, Option.bind_some] at hg
  exact ⟨g, hg, hwg⟩

end FirstMisfit

namespace Native

/-! ## What decoding reports -/

/-- **Induction over native types**: what holds of a type if it holds of its parts holds of all. -/
@[elab_as_elim]
theorem induction {motive : Native → Prop} (scalar : ∀ s, motive (.scalar s))
    (vector : ∀ t, motive t → motive (.vector t))
    (map : ∀ k w, motive k → motive w → motive (.map k w))
    (tuple : ∀ ts, (∀ t ∈ ts, motive t) → motive (.tuple ts)) (t : Native) : motive t :=
  @Native.rec motive (fun ts => ∀ t ∈ ts, motive t) scalar vector map tuple
    (fun _ h => nomatch h) (fun _ _ ht hts => List.forall_mem_cons.2 ⟨ht, hts⟩) t

theorem shapes_eq_map (ts : List Native) : shapes ts = ts.map shape := by
  induction ts with
  | nil => simp
  | cons t ts ih => simp [ih]

/-- A value that does not fit is not decoded, and is reported as a whole. -/
theorem decode_of_misfit {t : Native} {v : Value} (h : ¬v.Fits t.shape) :
    t.decode v = .error (v.mismatch t.shape) := by
  cases t with
  | scalar s =>
      cases v with
      | scalar r x =>
          have hne : r ≠ s := by simpa [Value.Fits] using h
          simp [hne]
      | _ => simp
  | vector t =>
      cases v with
      | vector xs => exact absurd trivial h
      | _ => simp
  | map k w =>
      cases v with
      | map es => exact absurd trivial h
      | _ => simp
  | tuple ts =>
      cases v with
      | tuple xs =>
          have hlen : xs.length ≠ ts.length := by simpa [Value.Fits, shapes_eq_map] using h
          simp [hlen]
      | _ => simp

/-- **An error of decoding names the first misfit**: what was to stand there, and what kind of value
does. -/
def NamesFirstMisfit (t : Native) (v : Value) (e : ValueError) : Prop :=
  ∃ p expected found, FirstMisfit v t.shape p expected found ∧ e = found.mismatch expected

theorem namesFirstMisfit_root {t : Native} {v : Value} {e : ValueError} (h : t.decode v = .error e)
    (hmisfit : ¬v.Fits t.shape) : NamesFirstMisfit t v e := by
  rw [decode_of_misfit hmisfit, Except.error.injEq] at h
  exact ⟨[], t.shape, v, .root hmisfit, h.symm⟩

/-- An error in a part is an error in the whole, if the whole fits and all parts before it are
decoded. -/
theorem NamesFirstMisfit.below {t f : Native} {v u : Value} {e : ValueError} {a : Place}
    (h : NamesFirstMisfit f u e) (hfit : v.Fits t.shape) (hu : v.part? a = some u)
    (hf : t.shape.part? a = some f.shape)
    (hbefore : ∀ b w, b.rank < a.rank → v.part? b = some w →
      ∃ g, t.shape.part? b = some g ∧ w.matches? g = true) : NamesFirstMisfit t v e := by
  obtain ⟨p, expected, found, hfirst, he⟩ := h
  exact ⟨a :: p, expected, found, hfirst.below hfit hu hf hbefore, he⟩

/-- A map is not decoded because of its first entry that is not. -/
theorem exists_first_of_decode_map_eq_error {k w : Native} {es : List (Value × Value)}
    {e : ValueError} (h : (map k w).decode (.map es) = .error e) :
    ∃ (i : Nat) (entry : Value × Value), es[i]? = some entry ∧ decodeEntry k w entry = .error e ∧
      ∀ j < i, ∀ f, es[j]? = some f → f.1.matches? k.shape = true ∧ f.2.matches? w.shape = true := by
  rw [decode_map, map_eq_error_iff] at h
  obtain ⟨i, entry, hi, hentry, hbefore⟩ := exists_first_of_mapM_eq_error h
  refine ⟨i, entry, hi, hentry, fun j hj f hf => ?_⟩
  obtain ⟨d, hd⟩ := hbefore j hj f hf
  obtain ⟨hkey, hvalue⟩ := decodeEntry_eq_ok_iff.1 hd
  exact ⟨(exists_decode_iff k f.1).1 ⟨d.1, hkey⟩, (exists_decode_iff w f.2).1 ⟨d.2, hvalue⟩⟩

/-- Values are not decoded, though they are as many as there are positions, because of the first of
them that is not. -/
theorem exists_first_of_decodeFields_eq_error {ts : List Native} {vs : List Value} {e : ValueError}
    (hlen : vs.length = ts.length) (h : decodeFields ts vs = .error e) :
    ∃ (i : Nat) (t : Native) (v : Value), ts[i]? = some t ∧ vs[i]? = some v ∧
      t.decode v = .error e ∧
      ∀ j < i, ∀ u, vs[j]? = some u → ∃ s, ts[j]? = some s ∧ u.matches? s.shape = true := by
  induction ts generalizing vs with
  | nil =>
      rw [decodeFields] at h
      cases h
  | cons t ts ih =>
      obtain _ | ⟨v, vs⟩ := vs
      · simp at hlen
      · rw [decodeFields] at h
        cases hv : t.decode v with
        | error f =>
            simp only [hv, Except.error.injEq] at h
            exact ⟨0, t, v, rfl, rfl, h ▸ hv, fun j hj => absurd hj (Nat.not_lt_zero j)⟩
        | ok x =>
            cases hvs : decodeFields ts vs with
            | error f =>
                simp only [hv, hvs, Except.error.injEq] at h
                obtain ⟨i, t', v', hti, hvi, hdec, hbefore⟩ := ih (Nat.succ.inj hlen) (h ▸ hvs)
                refine ⟨i + 1, t', v', hti, hvi, hdec, fun j hj u hu => ?_⟩
                cases j with
                | zero =>
                    cases hu
                    exact ⟨t, rfl, (exists_decode_iff t v).1 ⟨x, hv⟩⟩
                | succ j => exact hbefore j (Nat.lt_of_succ_lt_succ hj) u hu
            | ok xs => simp [hv, hvs] at h

/-- **What is not decoded is reported at its first misfit.** -/
theorem namesFirstMisfit {t : Native} {v : Value} {e : ValueError} (h : t.decode v = .error e) :
    NamesFirstMisfit t v e := by
  induction t using Native.induction generalizing v e with
  | scalar s =>
      refine namesFirstMisfit_root h fun hfit => ?_
      cases v with
      | scalar r x =>
          rw [shape] at hfit
          cases hfit
          simp at h
      | _ => simp [Value.Fits] at hfit
  | vector t ih =>
      cases v with
      | vector xs =>
          rw [decode] at h
          obtain ⟨i, x, hi, hx, hbefore⟩ := exists_first_of_mapM_eq_error h
          refine (ih hx).below (a := .item i) (by simp [Value.Fits]) hi
            (by simp [Shape.part?]) fun b w hlt hw => ?_
          obtain ⟨j, rfl, hj⟩ := Value.part?_vector_eq_some_iff.1 hw
          exact ⟨t.shape, by simp [Shape.part?], (exists_decode_iff t w).1 (hbefore j hlt w hj)⟩
      | _ => exact namesFirstMisfit_root h (by simp [Value.Fits])
  | map k w ihk ihw =>
      cases v with
      | map es =>
          obtain ⟨i, entry, hi, hentry, hbefore⟩ := exists_first_of_decode_map_eq_error h
          have hfit : (Value.map es).Fits (map k w).shape := by simp [Value.Fits]
          rcases decodeEntry_eq_error_iff.1 hentry with hkey | ⟨⟨x, hkey⟩, hvalue⟩
          · refine (ihk hkey).below (a := .key i) hfit (by simp [Value.part?, hi])
              (by simp [Shape.part?]) fun b u hlt hu => ?_
            obtain ⟨j, earlier, hj, ⟨rfl, rfl⟩ | ⟨rfl, rfl⟩⟩ := Value.part?_map_eq_some_iff.1 hu
            · simp only [Place.rank] at hlt
              exact ⟨k.shape, by simp [Shape.part?], (hbefore j (by omega) earlier hj).1⟩
            · simp only [Place.rank] at hlt
              exact ⟨w.shape, by simp [Shape.part?], (hbefore j (by omega) earlier hj).2⟩
          · refine (ihw hvalue).below (a := .value i) hfit (by simp [Value.part?, hi])
              (by simp [Shape.part?]) fun b u hlt hu => ?_
            obtain ⟨j, earlier, hj, ⟨rfl, rfl⟩ | ⟨rfl, rfl⟩⟩ := Value.part?_map_eq_some_iff.1 hu
            · refine ⟨k.shape, by simp [Shape.part?], ?_⟩
              simp only [Place.rank] at hlt
              -- the key may be that of the entry itself
              rcases Nat.lt_or_eq_of_le (show j ≤ i by omega) with hji | rfl
              · exact (hbefore j hji earlier hj).1
              · rw [hi] at hj
                cases hj
                exact (exists_decode_iff k entry.1).1 ⟨x, hkey⟩
            · simp only [Place.rank] at hlt
              exact ⟨w.shape, by simp [Shape.part?], (hbefore j (by omega) earlier hj).2⟩
      | _ => exact namesFirstMisfit_root h (by simp [Value.Fits])
  | tuple ts ih =>
      cases v with
      | tuple xs =>
          by_cases hlen : xs.length = ts.length
          · rw [decode, if_pos hlen] at h
            obtain ⟨i, t, x, ht, hx, hdec, hbefore⟩ := exists_first_of_decodeFields_eq_error hlen h
            refine (ih t (List.mem_of_getElem? ht) hdec).below (a := .item i)
              (by simpa [Value.Fits, shapes_eq_map] using hlen) hx
              (by simp [Shape.part?, shapes_eq_map, ht]) fun b w hlt hw => ?_
            obtain ⟨j, rfl, hj⟩ := Value.part?_tuple_eq_some_iff.1 hw
            obtain ⟨s, hs, hmatch⟩ := hbefore j hlt w hj
            exact ⟨s.shape, by simp [Shape.part?, shapes_eq_map, hs], hmatch⟩
          · exact namesFirstMisfit_root h (by simpa [Value.Fits, shapes_eq_map] using hlen)
      | _ => exact namesFirstMisfit_root h (by simp [Value.Fits])

/-- **Decoding reports the first mismatch.** If a value does not have the shape of a native type, then
there is a first position at which it does not fit the shape. Decoding fails with a mismatch of types:
what it expected is the shape at that position, and what it found is the kind of the part there.
Everything before that position, other than the containers that hold it, has the shape of its place,
and these containers fit. Where the maps are maps, the order of positions is that of their keys. -/
theorem decode_reports_first_mismatch (t : Native) (v : Value)
    (h : v.matches? t.shape = false) :
    ∃ p expected found, FirstMisfit v t.shape p expected found ∧
      t.decode v = .error (.typeMismatch expected found.kind) ∧
      (∀ (q : Position) u, q.Before p → ¬q <+: p → v.at? q = some u →
        ∃ e, t.shape.at? q = some e ∧ u.matches? e = true) ∧
      (∀ p' expected' found', FirstMisfit v t.shape p' expected' found' → p' = p) ∧
      (v.WellFormed → ∀ q es, v.at? q = some (.map es) → Entries.Sorted es) := by
  cases hdec : t.decode v with
  | ok x => exact absurd ((exists_decode_iff t v).1 ⟨x, hdec⟩) (by simp [h])
  | error e =>
      obtain ⟨p, expected, found, hfirst, rfl⟩ := namesFirstMisfit hdec
      exact ⟨p, expected, found, hfirst, rfl,
        fun q u hq hne hu => hfirst.matches_before (isValid_shape t) hq hne hu,
        fun p' expected' found' hfirst' => hfirst.unique hfirst',
        fun hv q es hes => (hv.at? hes).1⟩

/-- Readings of which the second is wrong twice: in the numbers of its key, and in its value. -/
def misreadings : Value :=
  .map [(.tuple [.scalar .string "a", .vector []], .tuple [.scalar .double 0, .scalar .object 9]),
    (.tuple [.scalar .string "b", .vector [.scalar .int32 1, .scalar .int16 2]], .tuple [])]

/-- The number in the key is reported, and not the value, which is a tuple of the wrong length. -/
theorem decode_reports_first_of_misreadings :
    misreadings.matches? readings.shape = false ∧
      readings.decode misreadings = .error (.typeMismatch (.scalar .int32) (.scalar .int16)) ∧
      ∃ p x, FirstMisfit misreadings readings.shape p (.scalar .int32) (.scalar .int16 x) := by
  have hshape : misreadings.matches? readings.shape = false := rfl
  have hdec : readings.decode misreadings =
    .error (.typeMismatch (.scalar .int32) (.scalar .int16)) := rfl
  obtain ⟨p, expected, found, hfirst, hreport, -⟩ :=
    decode_reports_first_mismatch readings misreadings hshape
  rw [hdec, Except.error.injEq, ValueError.typeMismatch.injEq] at hreport
  obtain ⟨rfl, hkind⟩ := hreport
  cases found with
  | scalar s x =>
      cases hkind
      exact ⟨hshape, hdec, p, x, hfirst⟩
  | _ => cases hkind

end Native

end ObjectBus
