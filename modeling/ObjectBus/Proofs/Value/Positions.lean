import ObjectBus.Proofs.Shape.Parts
import ObjectBus.Proofs.Value.Parts

/-!
# Positions in a value

A position leads from a value to one of its parts, place by place: to an item or a field, or to the
key or the value of an entry. A shape is gone down in the same way, so that a value and a shape can be
laid side by side. Positions are in the order in which a value is gone through from left to right, a
container before what is in it and a key before its value (`Position.Before`).

At each position a part of the value either fits the shape there or does not (`Value.Fits`), whatever
is below. A value has a shape if and only if the shape is valid and they fit everywhere
(`Value.matches_iff_fits`). So two shapes of one value have the same form wherever the value has a
part, and they can differ only in what they say of the entries of something empty
(`Value.shape_determined`).
-/

set_option autoImplicit false

namespace ObjectBus

/-- **Where a part stands in its container**: an item of a vector or a field of a tuple, or the key or
the value of an entry of a map. -/
inductive Place where
  | item (i : Nat)
  | key (i : Nat)
  | value (i : Nat)
  deriving DecidableEq, Repr

/-- The number of parts of the container before the place. An entry has two parts, the key first. -/
def Place.rank : Place → Nat
  | item i => i
  | key i => 2 * i
  | value i => 2 * i + 1

/-- **A way down** from a value or a shape to one of its parts. -/
abbrev Position := List Place

/-- **The order of positions**: a container before its parts, and of two parts of a container all of
the first before all of the second. -/
def Position.Before : Position → Position → Prop := List.Lex fun a b => a.rank < b.rank

/-- Below a position that is before another one, and not above it, everything is before that one. -/
theorem Position.Before.append {p q : Position} (h : q.Before p) (hq : ¬q <+: p) (r : Position) :
    Position.Before (q ++ r) p := by
  induction h with
  | nil => exact absurd List.nil_prefix hq
  | rel hlt => exact .rel hlt
  | cons _ ih => exact .cons (ih fun hp => hq (List.cons_prefix_cons.2 ⟨rfl, hp⟩))

namespace Shape

/-- The shape of the parts at a place. -/
def part? : Shape → Place → Option Shape
  | .vector e, .item _ => some e
  | .tuple ts, .item i => ts[i]?
  | .map k _, .key _ => some k
  | .map _ w, .value _ => some w
  | _, _ => none

/-- The shape of the parts at a position. -/
def at? (t : Shape) : Position → Option Shape
  | [] => some t
  | a :: p => (t.part? a).bind fun e => e.at? p

variable {t e : Shape} {a : Place} {p : Position}

theorem at?_cons_eq_some_iff :
    t.at? (a :: p) = some e ↔ ∃ f, t.part? a = some f ∧ f.at? p = some e := by
  rw [at?, Option.bind_eq_some_iff]

theorem at?_append {q : Position} : t.at? (p ++ q) = (t.at? p).bind fun e => e.at? q := by
  induction p generalizing t with
  | nil => rfl
  | cons a p ih => simp only [List.cons_append, at?, Option.bind_assoc, ih]

/-- Valid shapes have valid parts. -/
theorem isValid_of_part? (ht : t.isValid = true) (h : t.part? a = some e) : e.isValid = true := by
  unfold part? at h
  split at h
  · cases h
    exact ht
  · exact allValid_iff.1 ht e (List.mem_of_getElem? h)
  · cases h
    exact (Bool.and_eq_true_iff.1 ht).1
  · cases h
    exact (Bool.and_eq_true_iff.1 ht).2
  · cases h

theorem isValid_of_at? (ht : t.isValid = true) (h : t.at? p = some e) : e.isValid = true := by
  induction p generalizing t with
  | nil => cases h; exact ht
  | cons a p ih =>
      obtain ⟨f, hf, he⟩ := at?_cons_eq_some_iff.1 h
      exact ih (isValid_of_part? ht hf) he

end Shape

namespace Value

/-- The part at a place. -/
def part? : Value → Place → Option Value
  | .vector xs, .item i => xs[i]?
  | .tuple xs, .item i => xs[i]?
  | .map es, .key i => es[i]?.map Prod.fst
  | .map es, .value i => es[i]?.map Prod.snd
  | _, _ => none

/-- The part at a position. -/
def at? (v : Value) : Position → Option Value
  | [] => some v
  | a :: p => (v.part? a).bind fun u => u.at? p

/-- **A value fits a shape** if it is what the shape says, leaving its items, entries and fields aside;
but the number of fields counts. -/
def Fits : Value → Shape → Prop
  | .scalar s _, .scalar r => s = r
  | .vector _, .vector _ => True
  | .tuple xs, .tuple ts => xs.length = ts.length
  | .map _, .map _ _ => True
  | _, _ => False

/-- **Nothing in the value is an empty vector or an empty map**, at any depth. -/
def HasNoEmpty (v : Value) : Prop := ∀ p, v.at? p ≠ some (.vector []) ∧ v.at? p ≠ some (.map [])

/-! ## One place down -/

section Places

variable {v u w : Value} {a : Place} {p : Position}

@[simp] theorem part?_scalar (s : Scalar) (x : s.Carrier) : (scalar s x).part? a = none := by
  cases a <;> rfl

theorem part?_vector_eq_some_iff {xs : List Value} :
    (vector xs).part? a = some u ↔ ∃ i, a = .item i ∧ xs[i]? = some u := by
  cases a <;> simp [part?]

theorem part?_tuple_eq_some_iff {xs : List Value} :
    (tuple xs).part? a = some u ↔ ∃ i, a = .item i ∧ xs[i]? = some u := by
  cases a <;> simp [part?]

theorem part?_map_eq_some_iff {es : List (Value × Value)} : (map es).part? a = some u ↔
    ∃ i e, es[i]? = some e ∧ (a = .key i ∧ e.1 = u ∨ a = .value i ∧ e.2 = u) := by
  cases a <;> simp [part?]

theorem at?_cons_eq_some_iff :
    v.at? (a :: p) = some w ↔ ∃ u, v.part? a = some u ∧ u.at? p = some w := by
  rw [at?, Option.bind_eq_some_iff]

theorem at?_append {q : Position} : v.at? (p ++ q) = (v.at? p).bind fun u => u.at? q := by
  induction p generalizing v with
  | nil => rfl
  | cons a p ih => simp only [List.cons_append, at?, Option.bind_assoc, ih]

/-! What holds of the parts, wherever they stand, holds of all items, or of all keys and values. -/

theorem forall_part?_vector_iff {P : Value → Prop} {xs : List Value} :
    (∀ a u, (vector xs).part? a = some u → P u) ↔ ∀ x ∈ xs, P x := by
  simp only [part?_vector_eq_some_iff, List.mem_iff_getElem?]
  exact ⟨fun h x ⟨i, hi⟩ => h (.item i) x ⟨i, rfl, hi⟩, fun h a x ⟨i, _, hi⟩ => h x ⟨i, hi⟩⟩

theorem forall_part?_tuple_iff {P : Value → Prop} {xs : List Value} :
    (∀ a u, (tuple xs).part? a = some u → P u) ↔ ∀ x ∈ xs, P x := by
  simp only [part?_tuple_eq_some_iff, List.mem_iff_getElem?]
  exact ⟨fun h x ⟨i, hi⟩ => h (.item i) x ⟨i, rfl, hi⟩, fun h a x ⟨i, _, hi⟩ => h x ⟨i, hi⟩⟩

theorem forall_part?_map_iff {P : Value → Prop} {es : List (Value × Value)} :
    (∀ a u, (map es).part? a = some u → P u) ↔ ∀ e ∈ es, P e.1 ∧ P e.2 := by
  simp only [part?_map_eq_some_iff, List.mem_iff_getElem?]
  constructor
  · rintro h e ⟨i, hi⟩
    exact ⟨h (.key i) e.1 ⟨i, e, hi, .inl ⟨rfl, rfl⟩⟩, h (.value i) e.2 ⟨i, e, hi, .inr ⟨rfl, rfl⟩⟩⟩
  · rintro h a u ⟨i, e, hi, ⟨-, rfl⟩ | ⟨-, rfl⟩⟩
    · exact (h e ⟨i, hi⟩).1
    · exact (h e ⟨i, hi⟩).2

/-- **Induction over the parts**, wherever they stand. -/
@[elab_as_elim]
theorem part_induction {motive : Value → Prop}
    (step : ∀ v, (∀ a u, v.part? a = some u → motive u) → motive v) (v : Value) : motive v := by
  induction v using Value.induction with
  | scalar s x => exact step _ fun a u hu => by simp at hu
  | vector xs ih => exact step _ (forall_part?_vector_iff.2 ih)
  | tuple xs ih => exact step _ (forall_part?_tuple_iff.2 ih)
  | map es ih => exact step _ (forall_part?_map_iff.2 ih)

/-- The parts of a value whose maps are maps are such values. -/
theorem WellFormed.part? (hv : v.WellFormed) (h : v.part? a = some u) : u.WellFormed := by
  cases v with
  | scalar s x => simp at h
  | vector xs => exact forall_part?_vector_iff.2 (allWellFormed_iff.1 hv) a u h
  | tuple xs => exact forall_part?_tuple_iff.2 (allWellFormed_iff.1 hv) a u h
  | map es => exact forall_part?_map_iff.2 (entriesWellFormed_iff.1 hv.2) a u h

theorem WellFormed.at? (hv : v.WellFormed) (h : v.at? p = some u) : u.WellFormed := by
  induction p generalizing v with
  | nil => cases h; exact hv
  | cons a p ih =>
      obtain ⟨w, hw, hu⟩ := at?_cons_eq_some_iff.1 h
      exact ih (hv.part? hw) hu

end Places

/-! ## Shapes, place by place -/

section Fitting

variable {v : Value} {s t : Shape}

/-- **No value has a shape with `invalid` in it**, not even below something empty. -/
theorem isValid_of_matches (h : v.matches? t = true) : t.isValid = true := by
  induction v using Value.induction generalizing t with
  | scalar s x =>
      obtain rfl := scalar_matches_iff.1 h
      rfl
  | vector xs ih =>
      obtain ⟨e, rfl, he, -⟩ := vector_matches_iff.1 h
      exact he
  | tuple xs ih =>
      obtain ⟨ts, rfl, hts⟩ := tuple_matches_iff.1 h
      refine Shape.allValid_iff.2 fun t ht => ?_
      obtain ⟨x, hx, hxt⟩ := exists_left_of_forall₂ hts ht
      exact ih x hx hxt
  | map es ih =>
      obtain ⟨k, w, rfl, ⟨hk, hw⟩, -⟩ := map_matches_iff.1 h
      exact Bool.and_eq_true_iff.2 ⟨hk, hw⟩

/-- A value that has a shape fits it, and its parts have the shapes of their places. -/
theorem parts_of_matches (h : v.matches? t = true) : v.Fits t ∧
    ∀ a u, v.part? a = some u → ∃ e, t.part? a = some e ∧ u.matches? e = true := by
  cases v with
  | scalar s x =>
      obtain rfl := scalar_matches_iff.1 h
      exact ⟨rfl, fun a u hu => by simp at hu⟩
  | vector xs =>
      obtain ⟨e, rfl, -, hxs⟩ := vector_matches_iff.1 h
      refine ⟨trivial, fun a u hu => ?_⟩
      obtain ⟨i, rfl, hi⟩ := part?_vector_eq_some_iff.1 hu
      exact ⟨e, rfl, hxs u (List.mem_of_getElem? hi)⟩
  | tuple xs =>
      obtain ⟨ts, rfl, hts⟩ := tuple_matches_iff.1 h
      refine ⟨hts.length_eq, fun a u hu => ?_⟩
      obtain ⟨i, rfl, hi⟩ := part?_tuple_eq_some_iff.1 hu
      obtain ⟨hix, rfl⟩ := List.getElem?_eq_some_iff.1 hi
      have hit : i < ts.length := hts.length_eq ▸ hix
      exact ⟨ts[i], List.getElem?_eq_getElem hit, hts.get hix hit⟩
  | map es =>
      obtain ⟨k, w, rfl, -, hes⟩ := map_matches_iff.1 h
      refine ⟨trivial, fun a u hu => ?_⟩
      obtain ⟨i, e, hi, ⟨rfl, rfl⟩ | ⟨rfl, rfl⟩⟩ := part?_map_eq_some_iff.1 hu
      · exact ⟨k, rfl, (hes e (List.mem_of_getElem? hi)).1⟩
      · exact ⟨w, rfl, (hes e (List.mem_of_getElem? hi)).2⟩

/-- A value has a shape that is valid and that it fits, if its parts have the shapes of their places. -/
theorem matches_of_parts (ht : t.isValid = true) (hfit : v.Fits t)
    (hparts : ∀ a u, v.part? a = some u → ∃ e, t.part? a = some e ∧ u.matches? e = true) :
    v.matches? t = true := by
  cases v with
  | scalar s x =>
      cases t with
      | scalar r =>
          cases hfit
          exact scalar_matches_iff.2 rfl
      | _ => exact hfit.elim
  | vector xs =>
      cases t with
      | vector e =>
          refine vector_matches_iff.2 ⟨e, rfl, ht, fun x hx => ?_⟩
          obtain ⟨i, hi⟩ := List.mem_iff_getElem?.1 hx
          obtain ⟨_, ⟨⟩, hxe⟩ := hparts (.item i) x hi
          exact hxe
      | _ => exact hfit.elim
  | tuple xs =>
      cases t with
      | tuple ts =>
          refine tuple_matches_iff.2 ⟨ts, rfl, List.forall₂_iff_get.2 ⟨hfit, fun i hix hit => ?_⟩⟩
          obtain ⟨e, he, hxe⟩ := hparts (.item i) xs[i] (List.getElem?_eq_getElem hix)
          obtain ⟨_, rfl⟩ := List.getElem?_eq_some_iff.1 he
          exact hxe
      | _ => exact hfit.elim
  | map es =>
      cases t with
      | map k w =>
          refine map_matches_iff.2 ⟨k, w, rfl, Bool.and_eq_true_iff.1 ht, fun e he => ?_⟩
          obtain ⟨i, hi⟩ := List.mem_iff_getElem?.1 he
          obtain ⟨_, ⟨⟩, hkey⟩ := hparts (.key i) e.1 (part?_map_eq_some_iff.2 ⟨i, e, hi, by simp⟩)
          obtain ⟨_, ⟨⟩, hvalue⟩ :=
            hparts (.value i) e.2 (part?_map_eq_some_iff.2 ⟨i, e, hi, by simp⟩)
          exact ⟨hkey, hvalue⟩
      | _ => exact hfit.elim

/-- **A value has a shape if and only if** the shape is valid and the two fit at every position of the
value. -/
theorem matches_iff_fits : v.matches? t = true ↔ t.isValid = true ∧
    ∀ p u, v.at? p = some u → ∃ e, t.at? p = some e ∧ u.Fits e := by
  constructor
  · refine fun h => ⟨isValid_of_matches h, fun p => ?_⟩
    induction p generalizing v t with
    | nil =>
        rintro u ⟨⟩
        exact ⟨t, rfl, (parts_of_matches h).1⟩
    | cons a p ih =>
        intro w hw
        obtain ⟨u, hu, hw⟩ := at?_cons_eq_some_iff.1 hw
        obtain ⟨e, he, hue⟩ := (parts_of_matches h).2 a u hu
        obtain ⟨f, hf, hwf⟩ := ih hue w hw
        exact ⟨f, Shape.at?_cons_eq_some_iff.2 ⟨e, he, hf⟩, hwf⟩
  · rintro ⟨ht, hfits⟩
    induction v using part_induction generalizing t with
    | step v ih =>
        obtain ⟨_, ⟨⟩, hfit⟩ := hfits [] v rfl
        refine matches_of_parts ht hfit fun a u hu => ?_
        obtain ⟨e, he, -⟩ := hfits [a] u (at?_cons_eq_some_iff.2 ⟨u, hu, rfl⟩)
        obtain ⟨_, hf, ⟨⟩⟩ := Shape.at?_cons_eq_some_iff.1 he
        refine ⟨e, hf, ih a u hu (Shape.isValid_of_part? ht hf) fun p w hw => ?_⟩
        obtain ⟨g, hg, hwg⟩ := hfits (a :: p) w (at?_cons_eq_some_iff.2 ⟨u, hu, hw⟩)
        obtain ⟨f, hf', hg⟩ := Shape.at?_cons_eq_some_iff.1 hg
        rw [hf] at hf'
        cases hf'
        exact ⟨g, hg, hwg⟩

end Fitting

/-! ## Values with nothing empty in them -/

section Nonempty

variable {v : Value} {s t : Shape}

theorem hasNoEmpty_iff : v.HasNoEmpty ↔ (v ≠ .vector [] ∧ v ≠ .map []) ∧
    ∀ a u, v.part? a = some u → u.HasNoEmpty := by
  constructor
  · intro h
    refine ⟨⟨fun hv => (h []).1 (congrArg some hv), fun hv => (h []).2 (congrArg some hv)⟩,
      fun a u hu p => ?_⟩
    have hbelow := h (a :: p)
    rwa [at?, hu, Option.bind_some] at hbelow
  · rintro ⟨⟨hvector, hmap⟩, hparts⟩ p
    cases p with
    | nil => exact ⟨fun hv => hvector (Option.some.inj hv), fun hv => hmap (Option.some.inj hv)⟩
    | cons a p =>
        rw [at?]
        cases hu : v.part? a with
        | none => simp
        | some u => exact hparts a u hu p

@[simp] theorem hasNoEmpty_scalar (s : Scalar) (x : s.Carrier) : (scalar s x).HasNoEmpty :=
  hasNoEmpty_iff.2 ⟨⟨nofun, nofun⟩, fun a u hu => by simp at hu⟩

@[simp] theorem hasNoEmpty_vector_iff {xs : List Value} :
    (vector xs).HasNoEmpty ↔ xs ≠ [] ∧ ∀ x ∈ xs, x.HasNoEmpty := by
  rw [hasNoEmpty_iff, forall_part?_vector_iff]
  simp

@[simp] theorem hasNoEmpty_tuple_iff {xs : List Value} :
    (tuple xs).HasNoEmpty ↔ ∀ x ∈ xs, x.HasNoEmpty := by
  rw [hasNoEmpty_iff, forall_part?_tuple_iff]
  simp

@[simp] theorem hasNoEmpty_map_iff {es : List (Value × Value)} :
    (map es).HasNoEmpty ↔ es ≠ [] ∧ ∀ e ∈ es, e.1.HasNoEmpty ∧ e.2.HasNoEmpty := by
  rw [hasNoEmpty_iff, forall_part?_map_iff]
  simp

/-- **A value with nothing empty in it has one shape.** Each container has a part from which to tell
the shape of its parts. -/
theorem eq_of_matches (hv : v.HasNoEmpty) (hs : v.matches? s = true) (ht : v.matches? t = true) :
    s = t := by
  induction v using Value.induction generalizing s t with
  | scalar r x => rw [scalar_matches_iff.1 hs, scalar_matches_iff.1 ht]
  | vector xs ih =>
      obtain ⟨hne, hxs⟩ := hasNoEmpty_vector_iff.1 hv
      obtain ⟨e, rfl, -, he⟩ := vector_matches_iff.1 hs
      obtain ⟨f, rfl, -, hf⟩ := vector_matches_iff.1 ht
      obtain ⟨x, hx⟩ := List.exists_mem_of_ne_nil xs hne
      rw [ih x hx (hxs x hx) (he x hx) (hf x hx)]
  | tuple xs ih =>
      obtain ⟨es, rfl, he⟩ := tuple_matches_iff.1 hs
      obtain ⟨fs, rfl, hf⟩ := tuple_matches_iff.1 ht
      have heq : List.Forall₂ Eq es fs := forall₂_of_common he hf fun x hx e f hxe hxf =>
        ih x hx (hasNoEmpty_tuple_iff.1 hv x hx) hxe hxf
      rw [List.forall₂_eq_eq_eq] at heq
      rw [heq]
  | map es ih =>
      obtain ⟨hne, hes⟩ := hasNoEmpty_map_iff.1 hv
      obtain ⟨k, w, rfl, -, hkw⟩ := map_matches_iff.1 hs
      obtain ⟨l, u, rfl, -, hlu⟩ := map_matches_iff.1 ht
      obtain ⟨e, he⟩ := List.exists_mem_of_ne_nil es hne
      rw [(ih e he).1 (hes e he).1 (hkw e he).1 (hlu e he).1,
        (ih e he).2 (hes e he).2 (hkw e he).2 (hlu e he).2]

end Nonempty

/-- **A value determines its shape up to empty containers.** A shape that a value has is valid. If
nothing in the value is empty, at any depth, then it has one shape at most. And two shapes of any value
say the same of each of its parts: the same kind of scalar, a vector, a map, or a tuple of so many
fields. -/
theorem shape_determined :
    (∀ (v : Value) (t : Shape), v.matches? t = true → t.isValid = true) ∧
    (∀ (v : Value) (s t : Shape), v.HasNoEmpty → v.matches? s = true → v.matches? t = true →
      s = t) ∧
    (∀ (v : Value) (s t : Shape), v.matches? s = true → v.matches? t = true →
      ∀ p u, v.at? p = some u → ∃ e f, s.at? p = some e ∧ t.at? p = some f ∧ u.Fits e ∧ u.Fits f) := by
  refine ⟨fun v t => isValid_of_matches, fun v s t => eq_of_matches, fun v s t hs ht p u hu => ?_⟩
  obtain ⟨e, he, hue⟩ := (matches_iff_fits.1 hs).2 p u hu
  obtain ⟨f, hf, huf⟩ := (matches_iff_fits.1 ht).2 p u hu
  exact ⟨e, f, he, hf, hue, huf⟩

/-- A list of numbers, a map from a path to a byte, and a tuple with a signature. -/
def parcel : Value :=
  .tuple [.vector [.scalar .int16 1, .scalar .int16 2], .map [(.scalar .path "/a", .scalar .byte 7)],
    .tuple [.scalar .signature "s"]]

/-- The parcel has its own shape, and neither one in which the numbers are wider, or the path is a
text, or the last tuple is a vector, nor one that is not valid. A map without entries has many shapes,
but all are shapes of maps. -/
theorem shape_determined_of_parcel :
    let shape (number : Scalar) (text : Scalar) (last : Shape) : Shape :=
      .tuple [.vector (.scalar number), .map (.scalar text) (.scalar .byte), last]
    let own := shape .int16 .path (.tuple [.scalar .signature])
    parcel.HasNoEmpty ∧ parcel.matches? own = true ∧
      parcel.matches? (shape .int32 .path (.tuple [.scalar .signature])) = false ∧
      parcel.matches? (shape .int16 .string (.tuple [.scalar .signature])) = false ∧
      parcel.matches? (shape .int16 .path (.vector (.scalar .signature))) = false ∧
      parcel.matches? (shape .int16 .path (.tuple [.invalid])) = false ∧
      (∃ e f, (Shape.map (.scalar .bool) (.scalar .byte)).at? [] = some e ∧
        (Shape.map (.scalar .string) (.vector (.scalar .int64))).at? [] = some f ∧
        (Value.map []).Fits e ∧ (Value.map []).Fits f) := by
  intro shape own
  obtain ⟨hvalid, hunique, hforms⟩ := shape_determined
  have hfull : parcel.HasNoEmpty := by simp [parcel]
  have hown : parcel.matches? own = true := rfl
  have hother : ∀ t, own ≠ t → parcel.matches? t = false := fun t hne =>
    Bool.not_eq_true _ ▸ fun ht => hne (hunique parcel own t hfull hown ht)
  refine ⟨hfull, hown, hother _ (by simp [own, shape]), hother _ (by simp [own, shape]),
    hother _ (by simp [own, shape]), Bool.not_eq_true _ ▸ fun ht => ?_,
    hforms (.map []) _ _ rfl rfl [] _ rfl⟩
  cases hvalid _ _ ht

end Value

end ObjectBus
