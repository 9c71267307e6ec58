import Mathlib.Data.List.Forall2
import ObjectBus.Proofs.Shape.Signature

/-!
# Signatures, one after the other

A signature says itself where it ends. So signatures may be written one after the other with nothing
between them: the reader takes one after the other, and there is no other way to split the text.

`Shape.Spelled ts ss` says that the texts `ss` are the signatures of the shapes `ts`, and
`Shape.Splits cs ts` that reading from the front, again and again, gives the shapes `ts` and uses the
text up. The rest that stands behind a signature may be anything, a brace or a parenthesis as well
(`readOne_signature`); how much fuel the reader has makes no difference to what it gives
(`readOne_unique`).
-/

set_option autoImplicit false

namespace ObjectBus.Shape

/-- **The texts spell the shapes**: each is the signature of the shape at its place. -/
def Spelled (ts : List Shape) (ss : List String) : Prop :=
  List.Forall₂ (fun t s => t.signature = .ok s) ts ss

/-- **A text splits into shapes**: one is read from its front, and what is left unread splits into the
others. -/
inductive Splits : List Char → List Shape → Prop
  | nil : Splits [] []
  | cons {fuel : Nat} {cs rest : List Char} {t : Shape} {ts : List Shape} :
      readOne fuel cs = .ok (t, rest) → Splits rest ts → Splits cs (t :: ts)

/-! ## One signature -/

/-- **A signature is read as far as it goes**, and what stands behind it is left unread. -/
theorem readOne_signature {t : Shape} {s : String} (h : t.signature = .ok s) (rest : String)
    (fuel : Nat) (hfuel : 2 * s.length ≤ fuel + 1) :
    readOne fuel (s ++ rest).toList = .ok (t.withPaths, rest.toList) := by
  rw [String.toList_append]
  exact readOne_letters t s.toList (signature_eq_ok_iff.1 h) rest.toList fuel
    (by rwa [String.length_toList])

/-- **What is read does not depend on the fuel**, as long as something is read. -/
theorem readOne_unique {fuel fuel' : Nat} {cs rest rest' : List Char} {t u : Shape}
    (h : readOne fuel cs = .ok (t, rest)) (h' : readOne fuel' cs = .ok (u, rest')) :
    t = u ∧ rest = rest' := by
  obtain ⟨used, hused, hcs, hpaths⟩ := (letters?_of_read fuel).1 _ _ _ h
  obtain ⟨used', hused', hcs', hpaths'⟩ := (letters?_of_read fuel').1 _ _ _ h'
  -- there is an amount of fuel that is enough for both
  have hread := readOne_letters t used hused rest (2 * used.length + 2 * used'.length) (by omega)
  have hread' := readOne_letters u used' hused' rest' (2 * used.length + 2 * used'.length)
    (by omega)
  rw [← hcs, hpaths] at hread
  rw [← hcs', hpaths', hread, Except.ok.injEq, Prod.mk.injEq] at hread'
  exact hread'

/-- Nothing but the empty text can stand behind a signature in a signature. -/
theorem eq_empty_of_signature_append {t u : Shape} {s rest : String} (ht : t.signature = .ok s)
    (hu : u.signature = .ok (s ++ rest)) : rest = "" := by
  have hshort := readOne_signature ht rest (2 * s.length) (by omega)
  have hlong := readOne_signature hu "" (2 * (s ++ rest).length) (by omega)
  rw [String.append_empty] at hlong
  obtain ⟨-, hrest⟩ := readOne_unique hshort hlong
  exact String.toList_inj.1 hrest

/-! ## Many signatures -/

/-- A text splits in one way only. -/
theorem Splits.unique {cs : List Char} {ts us : List Shape} (h : Splits cs ts)
    (h' : Splits cs us) : ts = us := by
  induction h generalizing us with
  | nil =>
      cases h' with
      | nil => rfl
      | cons hread _ => exact absurd (length_lt_of_readOne hread) (Nat.not_lt_zero _)
  | cons hread _ ih =>
      cases h' with
      | nil => exact absurd (length_lt_of_readOne hread) (Nat.not_lt_zero _)
      | cons hread' hrest' =>
          obtain ⟨rfl, rfl⟩ := readOne_unique hread hread'
          rw [ih hrest']

/-- **Signatures one after the other split into their shapes**, with paths for objects. -/
theorem Spelled.splits {ts : List Shape} {ss : List String} (h : Spelled ts ss) :
    Splits (String.join ss).toList (ts.map withPaths) := by
  induction h with
  | nil => exact Splits.nil
  | @cons t s ts ss ht _ ih =>
      rw [String.join_cons]
      exact Splits.cons (readOne_signature ht (String.join ss) (2 * s.length) (by omega)) ih

/-- Shapes that differ in nothing but objects and paths are spelled alike. -/
theorem Spelled.texts_eq {ts us : List Shape} {ss rs : List String} (h : Spelled ts ss)
    (h' : Spelled us rs) (heq : us.map withPaths = ts.map withPaths) : rs = ss := by
  induction h generalizing us rs with
  | nil =>
      obtain rfl := List.map_eq_nil_iff.1 heq
      cases h'
      rfl
  | @cons t s ts ss ht _ ih =>
      obtain ⟨u, us, rfl, hu, hus⟩ := List.map_eq_cons_iff.1 heq
      obtain ⟨r, rs, hr, hrs, rfl⟩ := List.forall₂_cons_left_iff.1 h'
      have hletters := signature_eq_ok_iff.1 hr
      rw [← letters?_withPaths, hu, letters?_withPaths, signature_eq_ok_iff.1 ht] at hletters
      rw [ih hrs hus, String.toList_inj.1 (Option.some.inj hletters)]

/-! ## The main result -/

/-- **Signatures are self-delimiting.** From the signature of a shape with any text behind it, the
reader takes the signature, gives the shape with paths for objects, and leaves exactly the rest; two
units of fuel for each letter of the signature are enough. So no signature is a proper beginning of
another one, and signatures that are written one after the other split into their shapes in this way
and in no other: neither can the reader find other shapes, nor can other signatures be written that
make the same text. -/
theorem signatures_self_delimiting :
    (∀ (t : Shape) (s : String), t.signature = .ok s →
      (∀ (rest : String) (fuel : Nat), 2 * s.length ≤ fuel + 1 →
        readOne fuel (s ++ rest).toList = .ok (t.withPaths, rest.toList)) ∧
      ∀ (u : Shape) (rest : String), u.signature = .ok (s ++ rest) → rest = "") ∧
    ∀ (ts : List Shape) (ss : List String), Spelled ts ss →
      (∀ us, Splits (String.join ss).toList us ↔ us = ts.map withPaths) ∧
      ∀ (us : List Shape) (rs : List String), Spelled us rs → String.join rs = String.join ss →
        rs = ss ∧ us.map withPaths = ts.map withPaths := by
  refine ⟨fun t s ht => ⟨fun rest fuel hfuel => readOne_signature ht rest fuel hfuel,
    fun u rest hu => eq_empty_of_signature_append ht hu⟩, fun ts ss hts => ⟨fun us => ?_, ?_⟩⟩
  · constructor
    · intro hus
      exact hus.unique hts.splits
    · rintro rfl
      exact hts.splits
  · intro us rs hus hjoin
    have hsplits := hus.splits
    rw [hjoin] at hsplits
    have hpaths := hsplits.unique hts.splits
    exact ⟨hts.texts_eq hus hpaths, hpaths⟩

/-- A vector of objects, a map and an empty tuple. What is behind the vector begins as the entry of a
map does, and would end a tuple. -/
theorem signatures_self_delimiting_before_braces :
    let t : Shape := .vector (.scalar .object)
    let ts : List Shape := [t, .map (.scalar .byte) t, .tuple []]
    t.signature = .ok "ao" ∧
      readOne 3 "ao\x7b)a(".toList = .ok (.vector (.scalar .path), "\x7b)a(".toList) ∧
      (∀ (u : Shape) (rest : String), u.signature = .ok ("ao" ++ rest) → rest = "") ∧
      Spelled ts ["ao", "a{yao}", "()"] ∧
      Splits "aoa{yao}()".toList (ts.map withPaths) ∧
      ∀ (us : List Shape) (rs : List String), Spelled us rs → String.join rs = "aoa{yao}()" →
        rs = ["ao", "a{yao}", "()"] := by
  intro t ts
  have ht : t.signature = .ok "ao" := rfl
  have hts : Spelled ts ["ao", "a{yao}", "()"] := .cons rfl (.cons rfl (.cons rfl .nil))
  obtain ⟨hone, hmany⟩ := signatures_self_delimiting
  obtain ⟨hread, hends⟩ := hone t "ao" ht
  obtain ⟨hsplits, hunique⟩ := hmany ts _ hts
  refine ⟨ht, hread "\x7b)a(" 3 (by decide), hends, hts, (hsplits _).2 rfl, ?_⟩
  intro us rs hus hjoin
  exact (hunique us rs hus hjoin).1

end ObjectBus.Shape
