import Mathlib.Data.List.DropRight
import ObjectBus.Address

/-!
# Reading and writing addresses

Only proper addresses are ever read: every component is a non-empty run of the allowed characters.
Written and read again, such an address is the same, because no component has a slash in it. So the
texts of different addresses are different.

A text is an address if it starts with a slash and has no other characters than slashes and the allowed
ones. So the address of a node stays one when names are taken out of its path (`exists_parse_join`).

A text that starts with a slash and is none is refused for its first invalid piece
(`checkComponents_eq_error_iff`).

What is read of a text are its segments. Joining a root and a path puts the segments of the path after
those of the root, whatever slashes there are (`segments_join`), so nodes have addresses under the root.
-/

set_option autoImplicit false

namespace ObjectBus.Address

/-- **Proper addresses**: no component is empty or has a character that is not allowed. -/
def Proper (a : Address) : Prop :=
  ∀ c ∈ a.components, c ≠ "" ∧ ∀ x ∈ c.toList, isComponentChar x = true

instance (a : Address) : Decidable a.Proper :=
  decidable_of_iff (a.components.all fun c => !c.isEmpty && c.toList.all isComponentChar)
    (by simp [Proper])

/-! ## Checking -/

theorem checkComponent_eq_ok_iff {c : String} {position : Nat} :
    checkComponent c position = .ok () ↔ ∀ x ∈ c.toList, isComponentChar x = true := by
  unfold checkComponent
  cases hfind : c.toList.find? fun x => !isComponentChar x with
  | none => simpa [List.find?_eq_none] using hfind
  | some x =>
      have hx : isComponentChar x = false := by simpa using List.find?_some hfind
      simp only [reduceCtorEq, false_iff]
      intro hall
      rw [hall x (List.mem_of_find?_eq_some hfind)] at hx
      cases hx

theorem checkComponents_eq_ok_iff {cs : List String} {position : Nat} :
    checkComponents position cs = .ok () ↔
      ∀ c ∈ cs, ∀ x ∈ c.toList, isComponentChar x = true := by
  induction cs generalizing position with
  | nil => simp [checkComponents]
  | cons c cs ih =>
      rw [checkComponents, List.forall_mem_cons, ← @checkComponent_eq_ok_iff c position]
      cases checkComponent c position with
      | error e => simp
      | ok u => simp [ih]

/-! ## Where a check fails -/

/-- The first character of a piece that is not allowed in a component. -/
def FirstInvalidChar (piece : String) (c : Char) : Prop :=
  ∃ front back, piece.toList = front ++ c :: back ∧
    (∀ x ∈ front, isComponentChar x = true) ∧ isComponentChar c = false

/-- **The first invalid piece** of a list: where it stands, and its first character that is not
allowed. -/
structure FirstInvalid (pieces : List String) (place : Nat) (piece : String) (c : Char) : Prop where
  at_place : pieces[place]? = some piece
  before : ∀ p ∈ pieces.take place, ∀ x ∈ p.toList, isComponentChar x = true
  first : FirstInvalidChar piece c

theorem checkComponent_eq_error_iff {piece : String} {position : Nat} {e : AddressFault} :
    checkComponent piece position = .error e ↔ ∃ c, e = .invalidCharacter piece position c ∧
      FirstInvalidChar piece c := by
  have hfind : ∀ c, (piece.toList.find? fun x => !isComponentChar x) = some c ↔
      FirstInvalidChar piece c := by
    intro c
    rw [FirstInvalidChar, List.find?_eq_some_iff_append]
    constructor
    · rintro ⟨hc, front, back, hsplit, hfront⟩
      exact ⟨front, back, hsplit, by simpa using hfront, by simpa using hc⟩
    · rintro ⟨front, back, hsplit, hfront, hc⟩
      exact ⟨by simpa using hc, front, back, hsplit, by simpa using hfront⟩
  simp only [← hfind, checkComponent]
  cases piece.toList.find? fun x => !isComponentChar x with
  | none => simp
  | some c => simp [eq_comm]

/-- The first invalid piece is the first one, or comes after it. -/
theorem firstInvalid_cons_iff {p : String} {ps : List String} {place : Nat} {piece : String}
    {c : Char} : FirstInvalid (p :: ps) place piece c ↔
      (place = 0 ∧ piece = p ∧ FirstInvalidChar piece c) ∨
      (∃ k, place = k + 1 ∧ (∀ x ∈ p.toList, isComponentChar x = true) ∧
        FirstInvalid ps k piece c) := by
  constructor
  · rintro ⟨hat, hbefore, hfirst⟩
    cases place with
    | zero => exact Or.inl ⟨rfl, by simpa [eq_comm] using hat, hfirst⟩
    | succ k =>
        rw [List.take_succ_cons, List.forall_mem_cons] at hbefore
        exact Or.inr ⟨k, rfl, hbefore.1, by simpa using hat, hbefore.2, hfirst⟩
  · rintro (⟨rfl, rfl, hfirst⟩ | ⟨k, rfl, hp, hat, hbefore, hfirst⟩)
    · exact ⟨rfl, by simp, hfirst⟩
    · exact ⟨by simpa using hat, by simpa using ⟨hp, hbefore⟩, hfirst⟩

/-- **A check fails at the first invalid piece**, which it names with its position. -/
theorem checkComponents_eq_error_iff {pieces : List String} {position : Nat} {e : AddressFault} :
    checkComponents position pieces = .error e ↔ ∃ place piece c,
      FirstInvalid pieces place piece c ∧ e = .invalidCharacter piece (position + place) c := by
  induction pieces generalizing position with
  | nil =>
      simp only [checkComponents, reduceCtorEq, false_iff]
      rintro ⟨place, piece, c, ⟨hat, -, -⟩, -⟩
      cases hat
  | cons p ps ih =>
      have hcons : checkComponents position (p :: ps) = .error e ↔
          checkComponent p position = .error e ∨
            checkComponent p position = .ok () ∧ checkComponents (position + 1) ps = .error e := by
        rw [checkComponents]
        cases checkComponent p position <;> simp
      rw [hcons, checkComponent_eq_error_iff, checkComponent_eq_ok_iff, ih]
      constructor
      · rintro (⟨c, rfl, hfirst⟩ | ⟨hp, k, piece, c, hlater, rfl⟩)
        · exact ⟨0, p, c, firstInvalid_cons_iff.2 (Or.inl ⟨rfl, rfl, hfirst⟩), rfl⟩
        · refine ⟨k + 1, piece, c, firstInvalid_cons_iff.2 (Or.inr ⟨k, rfl, hp, hlater⟩), ?_⟩
          rw [Nat.add_assoc, Nat.add_comm 1 k]
      · rintro ⟨place, piece, c, hfirst, rfl⟩
        rcases firstInvalid_cons_iff.1 hfirst with ⟨rfl, rfl, hchar⟩ | ⟨k, rfl, hp, hlater⟩
        · exact Or.inl ⟨c, rfl, hchar⟩
        · refine Or.inr ⟨hp, k, piece, c, hlater, ?_⟩
          rw [Nat.add_assoc, Nat.add_comm 1 k]

/-- Valid components in front only move the position. -/
theorem checkComponents_append {cs : List String}
    (h : ∀ c ∈ cs, ∀ x ∈ c.toList, isComponentChar x = true) (ds : List String) (position : Nat) :
    checkComponents position (cs ++ ds) = checkComponents (position + cs.length) ds := by
  induction cs generalizing position with
  | nil => rfl
  | cons c cs ih =>
      rw [List.forall_mem_cons] at h
      rw [List.cons_append, checkComponents, checkComponent_eq_ok_iff.2 h.1]
      simp only [ih h.2, List.length_cons]
      rw [Nat.add_assoc, Nat.add_comm 1]

/-! ## Pieces -/

theorem pieces_eq_splitOn (cs : List Char) : pieces cs = cs.splitOn '/' := by
  induction cs with
  | nil => rfl
  | cons c cs ih =>
      rw [List.splitOn_eq_splitOnP, List.splitOnP_cons_eq_if_modifyHead,
        ← List.splitOn_eq_splitOnP, ← ih, pieces]
      by_cases hc : c = '/'
      · simp [hc]
      · have hne : pieces cs ≠ [] := ih ▸ List.splitOn_ne_nil '/' cs
        cases hcs : pieces cs with
        | nil => exact absurd hcs hne
        | cons p ps => simp [hc]

/-- **The parts of a text**: it is split at slashes, and what is empty is left out. -/
def parts (s : String) : List String :=
  ((s.toList.splitOn '/').filter fun p => !p.isEmpty).map String.ofList

theorem segments_toList (s : String) : segments s.toList = parts s := by
  rw [segments, pieces_eq_splitOn, parts]

theorem pieces_slash (cs : List Char) : pieces ('/' :: cs) = [] :: pieces cs := by
  rw [pieces, if_pos rfl]

/-- A text has a first piece, which may be empty. -/
theorem exists_pieces (cs : List Char) : ∃ p ps, pieces cs = p :: ps :=
  List.exists_cons_of_ne_nil (pieces_eq_splitOn cs ▸ List.splitOn_ne_nil '/' cs)

theorem pieces_cons {c : Char} (hc : c ≠ '/') {cs p : List Char} {ps : List (List Char)}
    (h : pieces cs = p :: ps) : pieces (c :: cs) = (c :: p) :: ps := by
  rw [pieces, if_neg hc, h]

theorem isComponentChar_ne_slash {x : Char} (h : isComponentChar x = true) : x ≠ '/' := by
  rintro rfl
  revert h
  decide

/-- **Pieces without a slash** are read as they were written, if none is empty. -/
theorem segments_intercalate_of_not_mem {cs : List String}
    (h : ∀ c ∈ cs, c ≠ "" ∧ '/' ∉ c.toList) : segments ("/".intercalate cs).toList = cs := by
  cases cs with
  | nil => rfl
  | cons c cs =>
      generalize hall : c :: cs = all at h
      -- splitting gives every piece, because none has a slash, and none is dropped as empty
      have hslash : ∀ p ∈ all.map String.toList, '/' ∉ p := by
        intro p hp
        obtain ⟨d, hd, rfl⟩ := List.mem_map.1 hp
        exact (h d hd).2
      have hne : all.map String.toList ≠ [] := by simp [← hall]
      have hfull : (all.map String.toList).filter (fun p => !p.isEmpty) = all.map String.toList := by
        refine List.filter_eq_self.2 fun p hp => ?_
        obtain ⟨d, hd, rfl⟩ := List.mem_map.1 hp
        simpa using (h d hd).1
      rw [segments, pieces_eq_splitOn, String.toList_intercalate]
      change List.map String.ofList ((List.splitOn '/' (['/'].intercalate _)).filter _) = _
      rw [List.splitOn_intercalate '/' hslash hne, hfull, List.map_map]
      simp

/-- **The components of a proper address are read as they were written.** -/
theorem segments_intercalate {cs : List String}
    (h : ∀ c ∈ cs, c ≠ "" ∧ ∀ x ∈ c.toList, isComponentChar x = true) :
    segments ("/".intercalate cs).toList = cs :=
  segments_intercalate_of_not_mem fun c hc =>
    ⟨(h c hc).1, fun hslash => isComponentChar_ne_slash ((h c hc).2 _ hslash) rfl⟩

/-! ## Going down -/

/-- What a component is: a non-empty run of the allowed characters. -/
def IsComponent (c : String) : Prop := c ≠ "" ∧ ∀ x ∈ c.toList, isComponentChar x = true

/-- **One component below**: an address has a child of each name that is a component. -/
theorem child_eq_ok_iff {a b : Address} {c : String} :
    a.child c = .ok b ↔ IsComponent c ∧ b = ⟨a.components ++ [c]⟩ := by
  unfold IsComponent
  rw [← @checkComponent_eq_ok_iff c a.components.length, child]
  cases checkComponent c a.components.length with
  | error e => simp
  | ok u =>
      by_cases hc : c = ""
      · simp [hc]
      · have hne : c.isEmpty = false := by simpa using hc
        simp only [hne]
        constructor
        · rintro ⟨⟩
          exact ⟨⟨hc, trivial⟩, rfl⟩
        · rintro ⟨-, rfl⟩
          rfl

/-! ## The round trip -/

/-- What was read is proper. -/
theorem proper_of_parse {s : String} {a : Address} (h : parse s = .ok a) : a.Proper := by
  unfold parse at h
  split at h
  · next cs _ =>
      cases hcheck : checkComponents 0 (segments cs) with
      | error e => rw [hcheck] at h; cases h
      | ok u =>
          rw [hcheck] at h
          cases h
          intro c hc
          refine ⟨?_, checkComponents_eq_ok_iff.1 hcheck c hc⟩
          obtain ⟨p, hp, rfl⟩ := List.mem_map.1 hc
          simpa using (List.mem_filter.1 hp).2
  · cases h

/-- **A proper address is read as it was written.** -/
theorem parse_render {a : Address} (h : a.Proper) : parse a.render = .ok a := by
  have htext : a.render.toList = '/' :: ("/".intercalate a.components).toList := by
    rw [render, String.toList_append]
    rfl
  have hcheck : checkComponents 0 a.components = .ok () :=
    checkComponents_eq_ok_iff.2 fun c hc => (h c hc).2
  simp only [parse, htext, segments_intercalate h, hcheck]

/-! ## What is an address -/

/-- The pieces of a text have all its characters but the slashes. -/
theorem exists_mem_pieces_iff {cs : List Char} {x : Char} :
    (∃ p ∈ pieces cs, x ∈ p) ↔ x ∈ cs ∧ x ≠ '/' := by
  induction cs with
  | nil => simp [pieces]
  | cons c cs ih =>
      by_cases hc : c = '/'
      · subst hc
        rw [pieces]
        simp only [if_true, List.mem_cons, exists_eq_or_imp, List.not_mem_nil, false_or, ih]
        constructor
        · exact fun h => ⟨Or.inr h.1, h.2⟩
        · rintro ⟨rfl | h, hx⟩
          · exact absurd rfl hx
          · exact ⟨h, hx⟩
      · have hcons : (∃ p ∈ pieces (c :: cs), x ∈ p) ↔ x = c ∨ ∃ p ∈ pieces cs, x ∈ p := by
          rw [pieces, if_neg hc]
          cases pieces cs with
          | nil => simp
          | cons p ps => simp [or_assoc]
        rw [hcons, ih, List.mem_cons, or_and_right]
        exact or_congr_left ⟨fun h => ⟨h, h ▸ hc⟩, And.left⟩

/-- What is read of a text are pieces without a slash. -/
theorem not_mem_of_mem_segments {cs : List Char} {c : String} (hc : c ∈ segments cs) :
    c ≠ "" ∧ '/' ∉ c.toList := by
  obtain ⟨p, hp, rfl⟩ := List.mem_map.1 hc
  obtain ⟨hp, hne⟩ := List.mem_filter.1 hp
  refine ⟨by simpa using hne, fun hslash => ?_⟩
  exact (exists_mem_pieces_iff.1 ⟨p, hp, by simpa using hslash⟩).2 rfl

/-- **What is an address**: a slash, and then slashes and allowed characters in any order. -/
theorem exists_parse_iff {s : String} :
    (∃ a, parse s = .ok a) ↔
      ∃ cs, s.toList = '/' :: cs ∧ ∀ x ∈ cs, x ≠ '/' → isComponentChar x = true := by
  unfold parse
  split
  · next cs hcs =>
      have hcheck : checkComponents 0 (segments cs) = .ok () ↔
          ∀ x ∈ cs, x ≠ '/' → isComponentChar x = true := by
        rw [checkComponents_eq_ok_iff]
        constructor
        · intro h x hx hslash
          obtain ⟨p, hp, hxp⟩ := exists_mem_pieces_iff.2 ⟨hx, hslash⟩
          refine h (String.ofList p) (List.mem_map_of_mem (List.mem_filter.2 ⟨hp, ?_⟩)) x (by simpa)
          cases p with
          | nil => cases hxp
          | cons y ys => rfl
        · intro h c hc x hx
          obtain ⟨p, hp, rfl⟩ := List.mem_map.1 hc
          obtain ⟨hxcs, hslash⟩ :=
            exists_mem_pieces_iff.1 ⟨p, (List.mem_filter.1 hp).1, by simpa using hx⟩
          exact h x hxcs hslash
      rw [hcs]
      simp only [List.cons.injEq, true_and, exists_eq_left', ← hcheck]
      cases checkComponents 0 (segments cs) <;> simp
  · next hno =>
      simp only [reduceCtorEq, exists_false, false_iff]
      rintro ⟨cs, hcs, -⟩
      exact hno cs hcs

/-! ## Joining -/

theorem mem_intercalate_iff {names : List String} {x : Char} (hx : x ≠ '/') :
    x ∈ ("/".intercalate names).toList ↔ ∃ name ∈ names, x ∈ name.toList := by
  rw [String.toList_intercalate]
  change x ∈ ['/'].intercalate (names.map String.toList) ↔ _
  induction names with
  | nil => simp
  | cons name names ih =>
      cases names with
      | nil => simp
      | cons name' names =>
          rw [List.map_cons, List.map_cons, List.intercalate_cons_cons, List.mem_append,
            List.mem_append, ← List.map_cons, ih, List.mem_singleton]
          simp [hx]

/-- A root and a path make an address, if the root alone does and the path has no other characters. -/
theorem exists_parse_join_iff {root path : String} :
    (∃ a, parse (join root path) = .ok a) ↔ (∃ a, parse (join root "") = .ok a) ∧
      ∀ x ∈ path.toList, x ≠ '/' → isComponentChar x = true := by
  rw [exists_parse_iff, exists_parse_iff]
  unfold join
  generalize String.ofList (root.toList.reverse.dropWhile (· == '/')).reverse = stem
  by_cases hpath : path = ""
  · simp [hpath]
  · have hfull : path.isEmpty = false := by simpa using hpath
    cases hstem : stem.toList with
    | nil =>
        obtain rfl : stem = "" := by simpa using hstem
        simp [hfull]
    | cons c cs =>
        have hne : stem.isEmpty = false := by
          cases hempty : stem.isEmpty with
          | false => rfl
          | true =>
              obtain rfl : stem = "" := by simpa using hempty
              cases hstem
        simp [hfull, hne, hstem, or_imp, forall_and, and_assoc]

/-- **Fewer names make an address** where more did. -/
theorem exists_parse_join {root : String} {names names' : List String}
    (hnames : ∀ name ∈ names', name ∈ names)
    (h : ∃ a, parse (join root ("/".intercalate names)) = .ok a) :
    ∃ a, parse (join root ("/".intercalate names')) = .ok a := by
  rw [exists_parse_join_iff] at h ⊢
  refine ⟨h.1, fun x hx hslash => ?_⟩
  obtain ⟨name, hname, hxname⟩ := (mem_intercalate_iff hslash).1 hx
  exact h.2 x ((mem_intercalate_iff hslash).2 ⟨name, hnames name hname, hxname⟩) hslash

/-! ## What is read of a joined text -/

theorem pieces_append (xs ys : List Char) : pieces (xs ++ '/' :: ys) = pieces xs ++ pieces ys := by
  induction xs with
  | nil => simp [pieces]
  | cons c xs ih =>
      rw [List.cons_append, pieces, pieces, ih]
      by_cases hc : c = '/'
      · simp [hc]
      · have hne : pieces xs ≠ [] := pieces_eq_splitOn xs ▸ List.splitOn_ne_nil '/' xs
        cases hxs : pieces xs with
        | nil => exact absurd hxs hne
        | cons p ps => simp [hc]

/-- A slash parts the segments. -/
theorem segments_append (xs ys : List Char) :
    segments (xs ++ '/' :: ys) = segments xs ++ segments ys := by
  simp only [segments, pieces_append, List.filter_append, List.map_append]

theorem segments_nil : segments [] = [] := rfl

theorem segments_slash (cs : List Char) : segments ('/' :: cs) = segments cs :=
  segments_append [] cs

/-- Slashes at the end do not matter. -/
theorem segments_rdropWhile (cs : List Char) :
    segments (cs.rdropWhile (· == '/')) = segments cs := by
  induction cs using List.reverseRecOn with
  | nil => rfl
  | append_singleton cs c ih =>
      by_cases hc : c = '/'
      · rw [List.rdropWhile_concat_pos _ _ _ (by simpa using hc), ih, hc, segments_append,
          segments_nil, List.append_nil]
      · rw [List.rdropWhile_concat_neg _ _ _ (by simpa using hc)]

/-- **Reading a text that starts with a slash** is checking its segments. -/
theorem parse_of_head {s : String} (h : s.toList.head? = some '/') :
    parse s = (checkComponents 0 (segments s.toList)).map fun _ => ⟨segments s.toList⟩ := by
  obtain ⟨cs, hcs⟩ := List.head?_eq_some_iff.1 h
  simp only [parse, hcs, segments_slash]
  cases checkComponents 0 (segments cs) <;> rfl

theorem parse_of_head_ne {s : String} (h : s.toList.head? ≠ some '/') :
    parse s = .error (.notAbsolute s) := by
  unfold parse
  split
  · next cs hcs => exact absurd (by rw [hcs]; rfl) h
  · rfl

theorem head?_of_parse {s : String} {a : Address} (h : parse s = .ok a) :
    s.toList.head? = some '/' := by
  by_contra hne
  rw [parse_of_head_ne hne] at h
  cases h

/-- What was read are the segments of the text. -/
theorem components_of_parse {s : String} {a : Address} (h : parse s = .ok a) :
    a.components = segments s.toList := by
  unfold parse at h
  split at h
  · next cs hcs =>
      split at h
      · cases h
      · cases h
        rw [hcs, segments_slash]
  · cases h

/-- **The segments of a root and a path**, when they are joined, are those of the root and then those of
the path. -/
theorem segments_join (root path : String) :
    segments (join root path).toList = segments root.toList ++ segments path.toList := by
  unfold join
  rw [← segments_rdropWhile root.toList, List.rdropWhile]
  generalize (root.toList.reverse.dropWhile (· == '/')).reverse = stem
  by_cases hpath : path = ""
  · cases stem with
    | nil => simp [hpath, segments_slash, segments_nil]
    | cons c cs => simp [hpath, segments_nil]
  · have hfull : path.isEmpty = false := by simpa using hpath
    simp [hfull, segments_append]

/-- Joining keeps the slash that a root starts with. -/
theorem head?_join {root : String} (h : root.toList.head? = some '/') (path : String) :
    (join root path).toList.head? = some '/' := by
  have hprefix : root.toList.rdropWhile (· == '/') <+: root.toList := List.rdropWhile_prefix _ _
  rw [List.rdropWhile] at hprefix
  unfold join
  generalize (root.toList.reverse.dropWhile (· == '/')).reverse = stem at hprefix
  cases stem with
  | nil => by_cases hpath : path = "" <;> simp [hpath]
  | cons c cs =>
      obtain ⟨ds, hds⟩ := hprefix
      obtain rfl : c = '/' := by
        rw [← hds] at h
        simpa using h
      by_cases hpath : path = "" <;> simp [hpath]

/-- **Reading a path under a root** is checking its segments, with the components of the root before
them. -/
theorem parse_join {root : String} {r : Address} (hr : parse root = .ok r) (path : String) :
    parse (join root path) = (checkComponents r.components.length (segments path.toList)).map
      fun _ => ⟨r.components ++ segments path.toList⟩ := by
  rw [parse_of_head (head?_join (head?_of_parse hr) path), segments_join, ← components_of_parse hr,
    checkComponents_append (fun c hc => (proper_of_parse hr c hc).2), Nat.zero_add]

theorem isWithin_iff {a p : Address} : a.isWithin p = true ↔ p.components <+: a.components :=
  List.isPrefixOf_iff_prefix

/-- **What a node has for an address lies under the root.** -/
theorem isWithin_of_parse_join {root path : String} {r a : Address} (hr : parse root = .ok r)
    (ha : parse (join root path) = .ok a) : a.isWithin r = true := by
  rw [isWithin_iff, components_of_parse hr, components_of_parse ha, segments_join]
  exact List.prefix_append _ _

end ObjectBus.Address
