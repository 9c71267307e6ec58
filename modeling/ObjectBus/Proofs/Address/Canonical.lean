import ObjectBus.Proofs.Address

/-!
# The canonical form of an address text

An address has many texts, since slashes may be repeated and may stand at the end. The canonical text
has no slash too many (`canonical`), and this is how an address is written: a text denotes an address if
and only if its canonical form is what the address is written as (`parse_eq_ok_iff`).

That the two agree is shown character by character. What is left of a text when it is made canonical are
its pieces with a slash before each, the empty ones left out (`trim_collapse`).
-/

set_option autoImplicit false

namespace ObjectBus.Address

/-! ## Making a text canonical -/

/-- **Collapses runs of slashes**: a slash with another one after it is left out. -/
def collapse : List Char → List Char
  | [] => []
  | c :: cs => if c = '/' ∧ cs.head? = some '/' then collapse cs else c :: collapse cs

/-- Leaves out one slash at the end. -/
def trim (cs : List Char) : List Char := if cs.getLast? = some '/' then cs.dropLast else cs

/-- **The canonical form of a text**: runs of slashes are collapsed, and the one at the end is left out
unless it is all there is. -/
def canonical (s : String) : String :=
  let cs := collapse s.toList
  String.ofList (if cs = ['/'] then cs else trim cs)

theorem collapse_cons_of_ne {c : Char} (hc : c ≠ '/') (cs : List Char) :
    collapse (c :: cs) = c :: collapse cs := by
  rw [collapse, if_neg fun h => hc h.1]

theorem collapse_slash_slash (cs : List Char) :
    collapse ('/' :: '/' :: cs) = collapse ('/' :: cs) := by
  rw [collapse, if_pos ⟨rfl, rfl⟩]

theorem collapse_slash_of_head_ne {cs : List Char} (hcs : cs.head? ≠ some '/') :
    collapse ('/' :: cs) = '/' :: collapse cs := by
  rw [collapse, if_neg fun h => hcs h.2]

/-- Collapsing leaves the first character where it is. -/
theorem head?_collapse (cs : List Char) : (collapse cs).head? = cs.head? := by
  induction cs with
  | nil => rfl
  | cons c cs ih =>
      rw [collapse]
      split
      · next h => rw [ih, h.2, h.1]; rfl
      · rfl

theorem collapse_ne_nil (c : Char) (cs : List Char) : collapse (c :: cs) ≠ [] := by
  intro h
  have hhead := head?_collapse (c :: cs)
  rw [h] at hhead
  cases hhead

theorem trim_cons {cs : List Char} (hcs : cs ≠ []) (c : Char) : trim (c :: cs) = c :: trim cs := by
  unfold trim
  rw [List.getLast?_cons_of_ne_nil hcs, List.dropLast_cons_of_ne_nil hcs]
  split <;> rfl

/-- Nothing is left of a single slash only. -/
theorem trim_eq_nil_iff {c : Char} {cs : List Char} : trim (c :: cs) = [] ↔ c :: cs = ['/'] := by
  cases cs with
  | nil =>
      by_cases hc : c = '/'
      · simp [trim, hc]
      · simp [trim, hc]
  | cons d ds => simp [trim_cons (List.cons_ne_nil d ds)]

/-- A piece and its slash. -/
theorem trim_collapse_slash {c : Char} (hc : c ≠ '/') (cs : List Char) :
    trim (collapse ('/' :: c :: cs)) = '/' :: trim (collapse (c :: cs)) := by
  rw [collapse_slash_of_head_ne (by simpa using hc), trim_cons (collapse_ne_nil c cs)]

theorem trim_collapse_cons {c : Char} (hc : c ≠ '/') (cs : List Char) :
    trim (collapse (c :: cs)) = c :: trim (collapse cs) := by
  rw [collapse_cons_of_ne hc]
  cases cs with
  | nil => simp [collapse, trim, hc]
  | cons d ds => exact trim_cons (collapse_ne_nil d ds) c

/-- The canonical form starts as the text does. -/
theorem head?_canonical (s : String) : (canonical s).toList.head? = s.toList.head? := by
  rw [← head?_collapse s.toList, canonical, String.toList_ofList]
  cases collapse s.toList with
  | nil => rfl
  | cons c cs =>
      split
      · rfl
      · next hroot =>
          cases cs with
          | nil => simp [trim, show c ≠ '/' by simpa using hroot]
          | cons d ds => rw [trim_cons (List.cons_ne_nil d ds)]; rfl

/-! ## What is left of a text -/

/-- The non-empty ones of some pieces, each with a slash before it. -/
def spelled (ps : List (List Char)) : List Char :=
  (ps.filter fun p => !p.isEmpty).flatMap fun p => '/' :: p

/-- **What is left of a text** are its first piece and the other pieces, the empty ones left out. -/
theorem trim_collapse {cs p : List Char} {ps : List (List Char)} (h : pieces cs = p :: ps) :
    trim (collapse cs) = p ++ spelled ps := by
  induction cs generalizing p ps with
  | nil =>
      cases h
      rfl
  | cons c cs ih =>
      obtain ⟨q, qs, hq⟩ := exists_pieces cs
      by_cases hc : c = '/'
      · subst hc
        obtain ⟨rfl, rfl⟩ := List.cons.inj ((pieces_slash cs).symm.trans h)
        -- the piece after the slash is empty at the end of the text and before another slash
        cases cs with
        | nil => rfl
        | cons d ds =>
            by_cases hd : d = '/'
            · subst hd
              rw [collapse_slash_slash, ih (pieces_slash ds), pieces_slash]
              rfl
            · obtain ⟨r, rs, hr⟩ := exists_pieces ds
              rw [trim_collapse_slash hd, ih (pieces_cons hd hr), pieces_cons hd hr]
              rfl
      · obtain ⟨rfl, rfl⟩ := List.cons.inj ((pieces_cons hc hq).symm.trans h)
        rw [trim_collapse_cons hc, ih hq]
        rfl

theorem spelled_segments (cs : List Char) :
    spelled (pieces cs) = (segments cs).flatMap fun c => '/' :: c.toList := by
  rw [spelled, segments, List.flatMap_map]
  simp

theorem slash_intercalate {cs : List (List Char)} (hcs : cs ≠ []) :
    '/' :: ['/'].intercalate cs = cs.flatMap fun c => '/' :: c := by
  induction cs with
  | nil => exact absurd rfl hcs
  | cons c cs ih =>
      cases cs with
      | nil => simp
      | cons d ds =>
          rw [List.intercalate_cons_cons, List.flatMap_cons, ← ih (List.cons_ne_nil d ds)]
          simp

/-- An address is written with a slash before every component, and the root as a slash. -/
theorem toList_render (a : Address) : a.render.toList =
    if a.components = [] then ['/'] else a.components.flatMap fun c => '/' :: c.toList := by
  have hjoin : a.render.toList = '/' :: ['/'].intercalate (a.components.map String.toList) := by
    rw [render, String.toList_append, String.toList_intercalate]
    rfl
  rw [hjoin]
  split
  · next h => rw [h]; rfl
  · next h => rw [slash_intercalate (by simpa using h), List.flatMap_map]

/-- **The canonical form of a text that starts with a slash** is how the address of its segments is
written, whether or not they are components. -/
theorem canonical_eq_render {s : String} (h : s.toList.head? = some '/') :
    canonical s = render ⟨segments s.toList⟩ := by
  obtain ⟨cs, hcs⟩ := List.head?_eq_some_iff.1 h
  have hleft : trim (collapse s.toList) = (segments s.toList).flatMap fun c => '/' :: c.toList := by
    rw [hcs, trim_collapse (pieces_slash cs), segments_slash, spelled_segments]
    rfl
  have hroot : collapse s.toList = ['/'] ↔ segments s.toList = [] := by
    obtain ⟨d, ds, hd⟩ := List.exists_cons_of_ne_nil (hcs ▸ collapse_ne_nil '/' cs)
    rw [hd, ← trim_eq_nil_iff, ← hd, hleft]
    cases segments s.toList <;> simp
  rw [← String.toList_inj, toList_render, canonical, String.toList_ofList, ← hleft]
  by_cases hs : segments s.toList = []
  · rw [if_pos (hroot.2 hs), if_pos hs, hroot.2 hs]
  · rw [if_neg fun h => hs (hroot.1 h), if_neg hs]

theorem head?_render (a : Address) : a.render.toList.head? = some '/' := by
  rw [render, String.toList_append]
  rfl

/-- A text that starts with a slash is read like its canonical form. -/
theorem parse_canonical {s : String} (h : s.toList.head? = some '/') :
    parse (canonical s) = parse s := by
  have hsegments : segments (render ⟨segments s.toList⟩).toList = segments s.toList := by
    rw [render, String.toList_append]
    exact (segments_slash _).trans
      (segments_intercalate_of_not_mem fun c hc => not_mem_of_mem_segments hc)
  rw [canonical_eq_render h, parse_of_head (head?_render _), parse_of_head h, hsegments]

/-- **A text denotes an address** if and only if its canonical form is what the address is written as. -/
theorem parse_eq_ok_iff {s : String} {a : Address} :
    parse s = .ok a ↔ a.Proper ∧ canonical s = a.render := by
  constructor
  · intro h
    rw [canonical_eq_render (head?_of_parse h), ← components_of_parse h]
    exact ⟨proper_of_parse h, rfl⟩
  · rintro ⟨ha, h⟩
    have hhead : s.toList.head? = some '/' := by
      rw [← head?_canonical, h, head?_render]
    rw [← parse_canonical hhead, h, parse_render ha]

/-! ## Addresses that are made -/

/-- **How addresses come about**: they are read, or reached from others by going down and up. -/
inductive Made : Address → Prop
  | parse {s : String} {a : Address} (h : parse s = .ok a) : Made a
  | root : Made root
  | child {a b : Address} {c : String} (ha : Made a) (h : a.child c = .ok b) : Made b
  | parent {a b : Address} (ha : Made a) (h : a.parent? = some b) : Made b

theorem parent?_eq_some_iff {a b : Address} :
    a.parent? = some b ↔ ∃ c, a.components = b.components ++ [c] := by
  obtain ⟨cs⟩ := a
  obtain ⟨ds⟩ := b
  rcases List.eq_nil_or_concat cs with rfl | ⟨es, c, rfl⟩
  · simp [parent?]
  · simp [parent?]

theorem Proper.child {a b : Address} (ha : a.Proper) {c : String} (h : a.child c = .ok b) :
    b.Proper := by
  obtain ⟨hc, rfl⟩ := child_eq_ok_iff.1 h
  intro d hd
  rcases List.mem_append.1 hd with hd | hd
  · exact ha d hd
  · rw [List.mem_singleton.1 hd]
    exact hc

/-- All addresses that are made are proper. -/
theorem Made.proper {a : Address} (h : a.Made) : a.Proper := by
  induction h with
  | parse h => exact proper_of_parse h
  | root => exact fun _ h => nomatch h
  | child _ h ih => exact ih.child h
  | parent _ h ih =>
      obtain ⟨c, hc⟩ := parent?_eq_some_iff.1 h
      exact fun d hd => ih d (hc ▸ List.mem_append_left [c] hd)

/-- **Reading an address is exact.** A text is an address if and only if it starts with a slash and has
no other characters than slashes and those of components. The components are then its non-empty pieces,
and they are written as the canonical form of the text; every address that is made is read as it was
written. So two texts denote one address if and only if they have one canonical form. A text that is no
address is refused for not starting with a slash, or else for the first of its non-empty pieces that is
invalid, with the place of the piece among them and its first invalid character. -/
theorem parse_exact (s : String) :
    ((∃ a, parse s = .ok a) ↔ s.toList.head? = some '/' ∧
      ∀ x ∈ s.toList, isComponentChar x = true ∨ x = '/') ∧
    (∀ a, parse s = .ok a → a.components = parts s ∧ a.render = canonical s) ∧
    (∀ a : Address, a.Made → parse a.render = .ok a) ∧
    (∀ t a, parse s = .ok a → (parse t = .ok a ↔ canonical t = canonical s)) ∧
    (∀ e, parse s = .error e ↔
      s.toList.head? ≠ some '/' ∧ e = .notAbsolute s ∨
      s.toList.head? = some '/' ∧ ∃ place piece c,
        FirstInvalid (parts s) place piece c ∧ e = .invalidCharacter piece place c) := by
  have hparts := segments_toList s
  refine ⟨?_, fun a ha => ?_, fun a ha => parse_render ha.proper, fun t a ha => ?_, fun e => ?_⟩
  · rw [exists_parse_iff]
    constructor
    · rintro ⟨cs, hcs, hall⟩
      rw [hcs, List.forall_mem_cons]
      exact ⟨rfl, Or.inr rfl, fun x hx => or_iff_not_imp_right.2 (hall x hx)⟩
    · rintro ⟨hhead, hall⟩
      obtain ⟨cs, hcs⟩ := List.head?_eq_some_iff.1 hhead
      rw [hcs, List.forall_mem_cons] at hall
      exact ⟨cs, hcs, fun x hx => (hall.2 x hx).resolve_right⟩
  · exact ⟨hparts ▸ components_of_parse ha, (parse_eq_ok_iff.1 ha).2.symm⟩
  · rw [parse_eq_ok_iff] at ha ⊢
    rw [ha.2]
    exact and_iff_right ha.1
  · by_cases hhead : s.toList.head? = some '/'
    · have hcheck : parse s = .error e ↔ checkComponents 0 (parts s) = .error e := by
        rw [parse_of_head hhead, hparts]
        cases checkComponents 0 (parts s) <;> simp [Except.map]
      simp only [hcheck, checkComponents_eq_error_iff, Nat.zero_add, hhead, ne_eq, not_true_eq_false,
        false_and, false_or, true_and]
    · simp only [parse_of_head_ne hhead, hhead, Except.error.injEq, ne_eq, not_false_eq_true,
        true_and, false_and, or_false, eq_comm]

/-- A text with slashes too many denotes the same address as others with its canonical form; one with a
dash in it is refused for the second of its pieces, as the empty ones do not count. -/
theorem parse_exact_of_untidy :
    (∃ a, parse "//a_1///b/" = .ok a ∧ a.components = ["a_1", "b"] ∧ a.render = "/a_1/b" ∧
      parse "/a_1/b//" = .ok a ∧ parse a.render = .ok a) ∧
    parse "//ok//no-b-c/?" = .error (.invalidCharacter "no-b-c" 1 '-') ∧
    parse "a_1/b" = .error (.notAbsolute "a_1/b") := by
  obtain ⟨hread, hwritten, hback, hsame, -⟩ := parse_exact "//a_1///b/"
  obtain ⟨a, ha⟩ := hread.2 ⟨rfl, by simp [isComponentChar]⟩
  obtain ⟨hparts, hrender⟩ := hwritten a ha
  refine ⟨⟨a, ha, hparts, hrender, (hsame _ a ha).2 rfl, hback a (.parse ha)⟩, ?_, ?_⟩
  · refine ((parse_exact "//ok//no-b-c/?").2.2.2.2 _).2 (Or.inr ⟨rfl, 1, "no-b-c", '-', ?_, rfl⟩)
    have hpieces : parts "//ok//no-b-c/?" = ["ok", "no-b-c", "?"] := rfl
    rw [hpieces]
    exact ⟨rfl, by simp [isComponentChar], ['n', 'o'], ['b', '-', 'c'], rfl,
      by simp [isComponentChar], rfl⟩
  · exact ((parse_exact "a_1/b").2.2.2.2 _).2 (Or.inl ⟨by decide, rfl⟩)

end ObjectBus.Address
