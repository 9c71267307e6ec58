import ObjectBus.Address.Trie
import ObjectBus.Proofs.Entries

/-!
# Laws of tries

A trie is read through `get?`. Storing and removing are described by what they do to `get?`, at the
address itself and at every other address, a prefix or an extension of it included.

Reading back after a removal needs the stored order in every branch, and undoing needs more: no
branch may lead nowhere. Both are `Trie.Tidy`, which every operation keeps. On a tidy trie a value
that was stored at a free address is removed again without a trace (`Trie.remove_put`), branches
included.
-/

set_option autoImplicit false

namespace ObjectBus

namespace Trie

variable {α : Type}

/-- The value below a list of components. -/
def find? (t : Trie α) (cs : List String) : Option α := (t.branch? cs).bind value

theorem get?_eq_find? (t : Trie α) (a : Address) : t.get? a = t.find? a.components := rfl

theorem find?_nil (v : Option α) (ch : Entries String (Trie α)) : find? (.node v ch) [] = v := rfl

theorem find?_cons (v : Option α) (ch : Entries String (Trie α)) (c : String) (cs : List String) :
    find? (.node v ch) (c :: cs) = (Entries.get? c ch).bind (find? · cs) := by
  simp only [find?, branch?, children]
  cases Entries.get? c ch <;> rfl

theorem find?_empty (cs : List String) : find? (empty : Trie α) cs = none := by
  cases cs with
  | nil => rfl
  | cons c cs => rw [empty, find?_cons]; rfl

/-- What is stored below a component, whether there is a branch or not. -/
theorem find?_branch (v : Option α) (ch : Entries String (Trie α)) (c : String) (cs : List String) :
    find? ((Entries.get? c ch).getD empty) cs = find? (.node v ch) (c :: cs) := by
  rw [find?_cons]
  cases Entries.get? c ch with
  | none => simp [find?_empty]
  | some u => simp

/-! ## Storing -/

theorem find?_putBelow_self (x : α) (t : Trie α) (cs : List String) :
    find? (putBelow x t cs) cs = some x := by
  induction cs generalizing t with
  | nil => cases t; rfl
  | cons c cs ih =>
      cases t with
      | node v ch => simp [putBelow, find?_cons, ih]

theorem find?_putBelow_of_ne (x : α) (t : Trie α) {cs ds : List String} (h : ds ≠ cs) :
    find? (putBelow x t cs) ds = find? t ds := by
  induction cs generalizing t ds with
  | nil =>
      cases t with
      | node v ch =>
          cases ds with
          | nil => exact absurd rfl h
          | cons d ds => simp [putBelow, find?_cons]
  | cons c cs ih =>
      cases t with
      | node v ch =>
          cases ds with
          | nil => rfl
          | cons d ds =>
              rw [putBelow, find?_cons]
              by_cases hdc : d = c
              · subst hdc
                rw [Entries.get?_put_self, Option.bind_some, ih _ (fun hc => h (by rw [hc])),
                  find?_branch v]
              · rw [Entries.get?_put_of_ne hdc, find?_cons]

theorem isBare_putBelow (x : α) (t : Trie α) (cs : List String) :
    (putBelow x t cs).isBare = false := by
  cases t with
  | node v ch =>
      cases cs with
      | nil => rfl
      | cons c cs =>
          have hne := Entries.put_ne_nil c (putBelow x ((Entries.get? c ch).getD empty) cs) ch
          simp [putBelow, isBare, hne]

/-! ## Tidiness -/

/-- **Tidy tries**: every branch lists its own branches in order, and none of them is bare. -/
def Tidy (t : Trie α) : Prop :=
  ∀ cs u, t.branch? cs = some u → u.children.Sorted ∧ (cs ≠ [] → u.isBare = false)

/-- Tidiness, one level at a time. -/
theorem tidy_node_iff {v : Option α} {ch : Entries String (Trie α)} :
    Tidy (.node v ch) ↔
      ch.Sorted ∧ ∀ c u, Entries.get? c ch = some u → u.isBare = false ∧ u.Tidy := by
  constructor
  · intro h
    refine ⟨(h [] _ rfl).1, fun c u hu => ?_⟩
    have hstep : ∀ cs, branch? (.node v ch) (c :: cs) = u.branch? cs := by
      intro cs
      simp only [branch?, children, hu]
    refine ⟨(h [c] u (by rw [hstep]; rfl)).2 (by simp), fun cs w hw => ?_⟩
    obtain ⟨hs, hb⟩ := h (c :: cs) w (by rw [hstep, hw])
    exact ⟨hs, fun _ => hb (by simp)⟩
  · rintro ⟨hs, hch⟩ cs w hw
    cases cs with
    | nil =>
        cases hw
        exact ⟨hs, fun h => absurd rfl h⟩
    | cons c cs =>
        simp only [branch?, children] at hw
        split at hw
        · cases hw
        · next u hu =>
            obtain ⟨hbare, htidy⟩ := hch c u hu
            refine ⟨(htidy cs w hw).1, fun _ => ?_⟩
            cases cs with
            | nil => cases hw; exact hbare
            | cons d ds => exact (htidy _ w hw).2 (by simp)

theorem tidy_empty : Tidy (empty : Trie α) := by
  refine tidy_node_iff.2 ⟨Entries.sorted_nil, fun c u hu => ?_⟩
  cases hu

/-- The branch below a component is tidy, also the empty one where there is none. -/
theorem Tidy.branch {v : Option α} {ch : Entries String (Trie α)} (h : Tidy (.node v ch))
    (c : String) : Tidy ((Entries.get? c ch).getD empty) := by
  cases hc : Entries.get? c ch with
  | none => exact tidy_empty
  | some u => exact ((tidy_node_iff.1 h).2 c u hc).2

theorem tidy_putBelow {t : Trie α} (h : t.Tidy) (x : α) (cs : List String) :
    (putBelow x t cs).Tidy := by
  induction cs generalizing t with
  | nil =>
      cases t with
      | node v ch => exact tidy_node_iff.2 (tidy_node_iff.1 h)
  | cons c cs ih =>
      cases t with
      | node v ch =>
          obtain ⟨hs, hch⟩ := tidy_node_iff.1 h
          refine tidy_node_iff.2 ⟨Entries.sorted_put hs _ _, fun d u hu => ?_⟩
          by_cases hdc : d = c
          · subst hdc
            rw [Entries.get?_put_self] at hu
            cases hu
            exact ⟨isBare_putBelow _ _ _, ih (h.branch d)⟩
          · rw [Entries.get?_put_of_ne hdc] at hu
            exact hch d u hu

theorem tidy_clearBelow {t : Trie α} (h : t.Tidy) (cs : List String) : (clearBelow t cs).Tidy := by
  induction cs generalizing t with
  | nil =>
      cases t with
      | node v ch => exact tidy_node_iff.2 (tidy_node_iff.1 h)
  | cons c cs ih =>
      cases t with
      | node v ch =>
          obtain ⟨hs, hch⟩ := tidy_node_iff.1 h
          simp only [clearBelow]
          split
          · exact h
          · next u hu =>
              have htidy := ih (hch c u hu).2
              split
              · next hbare =>
                  refine tidy_node_iff.2 ⟨Entries.sorted_drop hs c, fun d w hw => ?_⟩
                  by_cases hdc : d = c
                  · rw [hdc, Entries.get?_drop_self hs] at hw
                    cases hw
                  · rw [Entries.get?_drop_of_ne hdc] at hw
                    exact hch d w hw
              · next hbare =>
                  refine tidy_node_iff.2 ⟨Entries.sorted_put hs _ _, fun d w hw => ?_⟩
                  by_cases hdc : d = c
                  · rw [hdc, Entries.get?_put_self] at hw
                    cases hw
                    exact ⟨by simpa using hbare, htidy⟩
                  · rw [Entries.get?_put_of_ne hdc] at hw
                    exact hch d w hw

/-! ## Clearing -/

/-- A bare trie stores nothing. -/
theorem find?_of_isBare {t : Trie α} (h : t.isBare = true) (cs : List String) :
    find? t cs = none := by
  cases t with
  | node v ch =>
      simp only [isBare, Bool.and_eq_true, Option.isNone_iff_eq_none, List.isEmpty_iff] at h
      rw [h.1, h.2]
      exact find?_empty cs

theorem find?_clearBelow_self {t : Trie α} (h : t.Tidy) (cs : List String) :
    find? (clearBelow t cs) cs = none := by
  induction cs generalizing t with
  | nil => cases t; rfl
  | cons c cs ih =>
      cases t with
      | node v ch =>
          obtain ⟨hs, hch⟩ := tidy_node_iff.1 h
          simp only [clearBelow]
          split
          · next hc => simp [find?_cons, hc]
          · next u hu =>
              split
              · simp [find?_cons, Entries.get?_drop_self hs]
              · simp [find?_cons, ih (hch c u hu).2]

theorem find?_clearBelow_of_ne {t : Trie α} (h : t.Tidy) {cs ds : List String} (hne : ds ≠ cs) :
    find? (clearBelow t cs) ds = find? t ds := by
  induction cs generalizing t ds with
  | nil =>
      cases t with
      | node v ch =>
          cases ds with
          | nil => exact absurd rfl hne
          | cons d ds => simp [clearBelow, find?_cons]
  | cons c cs ih =>
      cases t with
      | node v ch =>
          obtain ⟨hs, hch⟩ := tidy_node_iff.1 h
          simp only [clearBelow]
          split
          · rfl
          · next u hu =>
              cases ds with
              | nil => split <;> rfl
              | cons d ds =>
                  by_cases hdc : d = c
                  · subst hdc
                    have hrec : find? (clearBelow u cs) ds = find? u ds :=
                      ih (hch d u hu).2 fun hc => hne (by rw [hc])
                    split
                    · next hbare =>
                        rw [find?_of_isBare hbare] at hrec
                        simp [find?_cons, Entries.get?_drop_self hs, hu, ← hrec]
                    · simp [find?_cons, hu, hrec]
                  · split
                    · simp [find?_cons, Entries.get?_drop_of_ne hdc]
                    · simp [find?_cons, Entries.get?_put_of_ne hdc]

/-! ## By address -/

@[simp] theorem get?_empty (a : Address) : (empty : Trie α).get? a = none := find?_empty _

@[simp] theorem get?_put_self (t : Trie α) (a : Address) (x : α) : (t.put a x).get? a = some x :=
  find?_putBelow_self x t a.components

theorem components_ne {a b : Address} (h : b ≠ a) : b.components ≠ a.components := by
  cases a; cases b
  simpa using h

theorem get?_put_of_ne {a b : Address} (h : b ≠ a) (t : Trie α) (x : α) :
    (t.put a x).get? b = t.get? b := find?_putBelow_of_ne x t (components_ne h)

theorem tidy_put {t : Trie α} (h : t.Tidy) (a : Address) (x : α) : (t.put a x).Tidy :=
  tidy_putBelow h x _

theorem get?_remove_self {t : Trie α} (h : t.Tidy) (a : Address) : (t.remove a).get? a = none := by
  unfold remove
  split
  · exact find?_clearBelow_self h _
  · next hc => simpa [has] using hc

theorem get?_remove_of_ne {t : Trie α} (ht : t.Tidy) {a b : Address} (h : b ≠ a) :
    (t.remove a).get? b = t.get? b := by
  unfold remove
  split
  · exact find?_clearBelow_of_ne ht (components_ne h)
  · rfl

theorem tidy_remove {t : Trie α} (h : t.Tidy) (a : Address) : (t.remove a).Tidy := by
  unfold remove
  split
  · exact tidy_clearBelow h _
  · exact h

/-! ## Undoing -/

theorem putBelow_putBelow (x y : α) (t : Trie α) (cs : List String) :
    putBelow y (putBelow x t cs) cs = putBelow y t cs := by
  induction cs generalizing t with
  | nil => cases t; rfl
  | cons c cs ih =>
      cases t with
      | node v ch => simp [putBelow, Entries.put_put, ih]

theorem putBelow_eq_self {t : Trie α} (h : t.Tidy) {x : α} {cs : List String}
    (hx : find? t cs = some x) : putBelow x t cs = t := by
  induction cs generalizing t with
  | nil =>
      cases t with
      | node v ch => rw [putBelow, ← hx, find?_nil]
  | cons c cs ih =>
      cases t with
      | node v ch =>
          obtain ⟨hs, hch⟩ := tidy_node_iff.1 h
          rw [find?_cons] at hx
          obtain ⟨u, hu, hux⟩ := Option.bind_eq_some_iff.1 hx
          have hself : putBelow x ((Entries.get? c ch).getD empty) cs = u := by
            rw [hu]
            exact ih (hch c u hu).2 hux
          rw [putBelow, hself, Entries.put_eq_self hs hu]

/-- Where nothing is stored, storing and clearing leave no trace. The branch that storing makes
becomes bare again, while one that was there before is not bare and stays. -/
theorem clearBelow_putBelow {t : Trie α} (h : t.Tidy) {cs : List String} (hn : find? t cs = none)
    (x : α) : clearBelow (putBelow x t cs) cs = t := by
  induction cs generalizing t with
  | nil =>
      cases t with
      | node v ch => rw [find?_nil] at hn; rw [putBelow, clearBelow, hn]
  | cons c cs ih =>
      cases t with
      | node v ch =>
          obtain ⟨hs, hch⟩ := tidy_node_iff.1 h
          have hrec := ih (h.branch c) (by rw [find?_branch v, hn])
          simp only [putBelow, clearBelow, Entries.get?_put_self, hrec]
          cases hc : Entries.get? c ch with
          | none =>
              have hbare : (empty : Trie α).isBare = true := rfl
              simp only [Option.getD_none, hbare, if_true]
              rw [Entries.drop_put hc]
          | some u =>
              simp only [Option.getD_some, (hch c u hc).1, Bool.false_eq_true, if_false]
              rw [Entries.put_put, Entries.put_eq_self hs hc]

theorem put_put (t : Trie α) (a : Address) (x y : α) : (t.put a x).put a y = t.put a y :=
  putBelow_putBelow x y t _

theorem put_eq_self {t : Trie α} (h : t.Tidy) {a : Address} {x : α} (hx : t.get? a = some x) :
    t.put a x = t := putBelow_eq_self h hx

/-- **A value that was stored at a free address is removed without a trace.** -/
theorem remove_put {t : Trie α} (h : t.Tidy) {a : Address} (hn : t.get? a = none) (x : α) :
    (t.put a x).remove a = t := by
  have hhas : (t.put a x).has a = true := by simp [has]
  rw [remove, if_pos hhas]
  exact clearBelow_putBelow h hn x

end Trie

end ObjectBus
