import Mathlib.Logic.Relation
import ObjectBus.Proofs.Address.Canonical

/-!
# Addresses and what lies below them

An address lies within another one if the other is reached from it by going up. So `isWithin` orders the
addresses like a tree with the root at the bottom, and going down one component is the only way back
from where going up has led.

The order in which addresses are listed fits this tree: an address comes before all that lie below it
(`isLE_of_isWithin`), and those that lie within one address stand together (`isWithin_of_between`), because
they agree in the components that are compared first.
-/

set_option autoImplicit false

namespace ObjectBus.Address

/-! ## Going up -/

/-- One step up. -/
def Up (a b : Address) : Prop := a.parent? = some b

theorem Up.isWithin {a b : Address} (h : Up a b) : a.isWithin b = true := by
  obtain ⟨c, hc⟩ := parent?_eq_some_iff.1 h
  exact isWithin_iff.2 ⟨[c], hc.symm⟩

/-- **An address lies within those that are reached by going up**, and no others. -/
theorem isWithin_iff_up {a p : Address} : a.isWithin p = true ↔ Relation.ReflTransGen Up a p := by
  constructor
  · intro h
    obtain ⟨below, hbelow⟩ := isWithin_iff.1 h
    -- by induction on the components below `p`, the last one of which goes first
    induction below using List.reverseRecOn generalizing a with
    | nil =>
        obtain rfl : a = p := by
          obtain ⟨cs⟩ := a
          obtain ⟨ds⟩ := p
          simpa [eq_comm] using hbelow
        exact .refl
    | append_singleton below c ih =>
        let b : Address := ⟨p.components ++ below⟩
        have hup : Up a b := parent?_eq_some_iff.2 ⟨c, by rw [← hbelow, List.append_assoc]⟩
        exact .head hup (ih (isWithin_iff.2 (List.prefix_append _ _)) rfl)
  · intro h
    induction h with
    | refl => exact isWithin_iff.2 List.prefix_rfl
    | tail _ hup ih => exact isWithin_iff.2 ((isWithin_iff.1 hup.isWithin).trans (isWithin_iff.1 ih))

theorem isWithin_antisymm {a b : Address} (hab : a.isWithin b = true) (hba : b.isWithin a = true) :
    a = b := by
  rw [isWithin_iff] at hab hba
  obtain ⟨cs⟩ := a
  obtain ⟨ds⟩ := b
  exact congrArg Address.mk (hba.eq_of_length (Nat.le_antisymm hba.length_le hab.length_le))

/-! ## Going down -/

theorem exists_child_iff {a : Address} {c : String} :
    (∃ d, a.child c = .ok d) ↔ c ≠ "" ∧ ∀ x ∈ c.toList, isComponentChar x = true := by
  simp [child_eq_ok_iff, IsComponent]

theorem parent?_of_child {a d : Address} {c : String} (h : a.child c = .ok d) :
    d.parent? = some a := by
  obtain ⟨-, rfl⟩ := child_eq_ok_iff.1 h
  exact parent?_eq_some_iff.2 ⟨c, rfl⟩

/-- **The text of a child** is that of its parent, a slash and the component. -/
theorem parse_of_child {a d : Address} (ha : a.Proper) {c : String} (h : a.child c = .ok d) :
    parse (a.render ++ "/" ++ c) = .ok d := by
  have hd := ha.child h
  obtain ⟨hc, rfl⟩ := child_eq_ok_iff.1 h
  have htext : (a.render ++ "/" ++ c).toList = a.render.toList ++ '/' :: c.toList := by simp
  have hhead : (a.render ++ "/" ++ c).toList.head? = some '/' := by
    rw [htext, List.head?_append, head?_render]
    rfl
  have hone : segments c.toList = [c] := by
    simpa using segments_intercalate (List.forall_mem_singleton.2 hc)
  have hsegments : segments (a.render ++ "/" ++ c).toList = a.components ++ [c] := by
    rw [htext, segments_append, hone, components_of_parse (parse_render ha)]
  rw [parse_of_head hhead, hsegments, checkComponents_eq_ok_iff.2 fun e he => (hd e he).2]
  rfl

/-! ## In order -/

/-- **An address does not come after what lies within it.** -/
theorem isLE_of_isWithin {a p : Address} (h : a.isWithin p = true) : (compare p a).isLE = true := by
  obtain ⟨below, hbelow⟩ := isWithin_iff.1 h
  show (compare p.components a.components).isLE = true
  rw [← hbelow]
  induction p.components with
  | nil => cases below <;> simp
  | cons c cs ih =>
      rw [List.cons_append, List.compare_cons_cons, Std.ReflOrd.compare_self]
      exact ih

/-- Between two lists that start alike all lists start like them. -/
theorem prefix_of_between {cs front back ys : List String}
    (hfront : (compare (cs ++ front) ys).isLE = true)
    (hback : (compare ys (cs ++ back)).isLE = true) : cs <+: ys := by
  induction cs generalizing ys with
  | nil => exact List.nil_prefix
  | cons c cs ih =>
      cases ys with
      | nil => simp at hfront
      | cons y ys =>
          simp only [List.cons_append, List.compare_cons_cons, Ordering.isLE_then_iff_or]
            at hfront hback
          -- the first component lies between `c` and `c`
          rcases hfront with hlt | ⟨heq, hfront⟩
          · rw [Std.OrientedOrd.eq_swap, hlt] at hback
            simp at hback
          · obtain rfl := Std.LawfulEqOrd.eq_of_compare heq
            rw [Std.ReflOrd.compare_self] at hback
            exact List.cons_prefix_cons.2 ⟨rfl, ih hfront (by simpa using hback)⟩

/-- **What lies within an address stands together.** -/
theorem isWithin_of_between {a b c p : Address} (hab : (compare a b).isLE = true)
    (hbc : (compare b c).isLE = true) (ha : a.isWithin p = true) (hc : c.isWithin p = true) :
    b.isWithin p = true := by
  obtain ⟨front, hfront⟩ := isWithin_iff.1 ha
  obtain ⟨back, hback⟩ := isWithin_iff.1 hc
  have hab' : (compare a.components b.components).isLE = true := hab
  have hbc' : (compare b.components c.components).isLE = true := hbc
  rw [← hfront] at hab'
  rw [← hback] at hbc'
  exact isWithin_iff.2 (prefix_of_between hab' hbc')

/-- **Lying within, going up, going down, the text and the order fit together.** An address lies within
another one if and only if going up leads there. This is a partial order with the root below everything.
An address has a child of each name that is a non-empty run of letters, digits and underscores and of no
other name; the child is what is read of the text of the address with a slash and the name after it, and
going up from it leads back. No address comes after one that lies within it, and if two addresses lie
within a third one, so do all addresses between them. -/
theorem ancestry_fits_text_and_order {a : Address} (ha : a.Made) (b c p : Address) (name : String) :
    (a.isWithin p = true ↔ Relation.ReflTransGen (fun x y => x.parent? = some y) a p) ∧
    (a.isWithin a = true ∧ a.isWithin root = true ∧
      (a.isWithin b = true → b.isWithin c = true → a.isWithin c = true) ∧
      (a.isWithin b = true → b.isWithin a = true → a = b)) ∧
    ((∃ d, a.child name = .ok d) ↔ name ≠ "" ∧ ∀ x ∈ name.toList, isComponentChar x = true) ∧
    (∀ d, a.child name = .ok d →
      parse (a.render ++ "/" ++ name) = .ok d ∧ d.parent? = some a) ∧
    (a.isWithin p = true → (compare p a).isLE = true) ∧
    ((compare a b).isLE = true → (compare b c).isLE = true → a.isWithin p = true →
      c.isWithin p = true → b.isWithin p = true) := by
  refine ⟨isWithin_iff_up, ⟨?_, ?_, ?_, isWithin_antisymm⟩, exists_child_iff,
    fun d hd => ⟨parse_of_child ha.proper hd, parent?_of_child hd⟩, isLE_of_isWithin,
    isWithin_of_between⟩
  · exact isWithin_iff.2 List.prefix_rfl
  · exact isWithin_iff.2 List.nil_prefix
  · intro hab hbc
    exact isWithin_iff.2 ((isWithin_iff.1 hbc).trans (isWithin_iff.1 hab))

/-- Below `/a`, with `/ab` beside it: what lies between two addresses below `/a` does too, and `/ab`, which
lies within the root only, is not between them. -/
theorem ancestry_fits_beside_a_longer_name :
    let a : Address := ⟨["a", "z"]⟩
    let p : Address := ⟨["a"]⟩
    a.Made ∧ Relation.ReflTransGen (fun x y => x.parent? = some y) a p ∧
      (∃ d, p.child "b" = .ok d ∧ parse "/a/b" = .ok d ∧ d.parent? = some p ∧
        d.isWithin p = true ∧ (compare p d).isLE = true) ∧
      (∀ d, p.child "b/c" ≠ .ok d) ∧
      (⟨["ab"]⟩ : Address).isWithin p = false ∧ (compare ⟨["ab"]⟩ a).isLE = false := by
  intro a p
  have ha : a.Made := .parse (s := "/a/z") rfl
  have hp : p.Made := .parent ha rfl
  have hup := (ancestry_fits_text_and_order ha a a p "b").1
  obtain ⟨-, -, hchild, htext, -⟩ := ancestry_fits_text_and_order hp p p p "b"
  obtain ⟨d, hd⟩ := hchild.2 ⟨by decide, by simp [isComponentChar]⟩
  obtain rfl : d = ⟨["a", "b"]⟩ := (child_eq_ok_iff.1 hd).2
  obtain ⟨hparse, hparent⟩ := htext _ hd
  have hbetween := (ancestry_fits_text_and_order hp ⟨["a", "b"]⟩ a p "b").2.2.2.2.2
    (by decide) (by decide) (by decide) (hup.2 (.single rfl))
  have hbefore := (ancestry_fits_text_and_order (.child hp hd) a a p "b").2.2.2.2.1 hbetween
  refine ⟨ha, hup.1 (by decide), ⟨_, hd, hparse, hparent, hbetween, hbefore⟩, fun d hd => ?_, by decide,
    by decide⟩
  exact absurd ((ancestry_fits_text_and_order hp p p p "b/c").2.2.1.1 ⟨d, hd⟩).2
    (by simp [isComponentChar])

end ObjectBus.Address
