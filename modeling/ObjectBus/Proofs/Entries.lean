import ObjectBus.Entries

/-!
# Laws of finite maps

A map is read through `get?`. Storing, dropping and changing are described by what they do to
`get?`, at the key itself and at every other key. Only dropping needs the stored order: a list that
held a key twice would show the second entry once the first is gone.

What was done can be undone: a key that was stored where there was none is dropped again without a
trace. Storing a list of entries one after the other brings them into order, and where no key comes
twice nothing is lost (`perm_collect`).
-/

set_option autoImplicit false

namespace ObjectBus

namespace Entries

variable {κ α : Type} [Ord κ]

@[simp] theorem get?_nil (k : κ) : get? k ([] : Entries κ α) = none := rfl

theorem get?_cons (k l : κ) (a : α) (es : Entries κ α) :
    get? k ((l, a) :: es) = if compare k l = .eq then some a else get? k es := rfl

theorem sorted_nil : Sorted ([] : Entries κ α) := List.Pairwise.nil

theorem sorted_singleton (k : κ) (a : α) : Sorted [(k, a)] := List.pairwise_singleton _ _

theorem sorted_cons {k : κ} {a : α} {es : Entries κ α} :
    Sorted ((k, a) :: es) ↔ (∀ e ∈ es, compare k e.1 = .lt) ∧ Sorted es := List.pairwise_cons

variable [Std.LawfulEqOrd κ]

/-! ## Looking up -/

theorem mem_of_get? {k : κ} {a : α} {es : Entries κ α} (h : get? k es = some a) : (k, a) ∈ es := by
  induction es with
  | nil => cases h
  | cons e es ih =>
      obtain ⟨l, b⟩ := e
      rw [get?_cons] at h
      split at h
      · next hkl =>
          obtain rfl := Std.LawfulEqOrd.eq_of_compare hkl
          cases h
          exact List.mem_cons_self
      · exact List.mem_cons_of_mem _ (ih h)

theorem get?_isSome_iff {k : κ} {es : Entries κ α} : (get? k es).isSome ↔ k ∈ keys es := by
  induction es with
  | nil => simp [keys]
  | cons e es ih =>
      obtain ⟨l, b⟩ := e
      rw [get?_cons]
      by_cases hkl : compare k l = .eq
      · obtain rfl := Std.LawfulEqOrd.eq_of_compare hkl
        simp [keys]
      · have hne : k ≠ l := fun h => hkl (h ▸ Std.ReflOrd.compare_self)
        simp only [hkl, if_false, ih]
        simp [keys, hne]

theorem mem_keys_iff {k : κ} {es : Entries κ α} : k ∈ keys es ↔ ∃ a, get? k es = some a := by
  rw [← get?_isSome_iff, Option.isSome_iff_exists]

theorem get?_of_mem {k : κ} {a : α} {es : Entries κ α} (hs : Sorted es) (h : (k, a) ∈ es) :
    get? k es = some a := by
  induction es with
  | nil => cases h
  | cons e es ih =>
      obtain ⟨l, b⟩ := e
      rw [sorted_cons] at hs
      rw [get?_cons]
      rcases List.mem_cons.1 h with heq | hmem
      · cases heq
        simp
      · have hlk : compare l k = .lt := hs.1 _ hmem
        have hkl : compare k l ≠ .eq := by
          intro heq
          rw [Std.LawfulEqOrd.eq_of_compare heq, Std.ReflOrd.compare_self] at hlk
          cases hlk
        rw [if_neg hkl]
        exact ih hs.2 hmem

theorem mem_values_iff {a : α} {es : Entries κ α} (hs : Sorted es) :
    a ∈ values es ↔ ∃ k, get? k es = some a := by
  constructor
  · intro h
    obtain ⟨⟨k, b⟩, hmem, rfl⟩ := List.mem_map.1 h
    exact ⟨k, get?_of_mem hs hmem⟩
  · rintro ⟨k, hk⟩
    exact List.mem_map.2 ⟨(k, a), mem_of_get? hk, rfl⟩

/-- A key below all stored ones is not stored. -/
theorem get?_eq_none_of_lt {k : κ} {es : Entries κ α} (h : ∀ e ∈ es, compare k e.1 = .lt) :
    get? k es = none := by
  cases hk : get? k es with
  | none => rfl
  | some a =>
      have := h _ (mem_of_get? hk)
      rw [Std.ReflOrd.compare_self] at this
      cases this

/-! ## Storing -/

@[simp] theorem get?_put_self (k : κ) (a : α) (es : Entries κ α) : get? k (put k a es) = some a := by
  induction es with
  | nil => simp [put, get?_cons]
  | cons e es ih =>
      obtain ⟨l, b⟩ := e
      cases hkl : compare k l with
      | lt => simp [put, hkl, get?_cons]
      | eq => simp [put, hkl, get?_cons]
      | gt => simp [put, hkl, get?_cons, ih]

theorem get?_put_of_ne {k l : κ} (h : l ≠ k) (a : α) (es : Entries κ α) :
    get? l (put k a es) = get? l es := by
  have hlk : compare l k ≠ .eq := fun hc => h (Std.LawfulEqOrd.eq_of_compare hc)
  induction es with
  | nil => simp [put, get?_cons, hlk]
  | cons e es ih =>
      obtain ⟨m, b⟩ := e
      cases hkm : compare k m with
      | lt => simp [put, hkm, get?_cons, hlk]
      | eq =>
          obtain rfl := Std.LawfulEqOrd.eq_of_compare hkm
          simp [put, get?_cons, hlk]
      | gt => simp [put, hkm, get?_cons, ih]

theorem put_ne_nil (k : κ) (a : α) (es : Entries κ α) : put k a es ≠ [] := by
  intro h
  have := get?_put_self k a es
  rw [h] at this
  cases this

omit [Std.LawfulEqOrd κ] in
/-- What is stored after storing one entry: that entry, and some of the others. -/
theorem mem_put {k : κ} {a : α} {es : Entries κ α} {e : κ × α} (h : e ∈ put k a es) :
    e = (k, a) ∨ e ∈ es := by
  induction es with
  | nil => simpa [put] using h
  | cons f es ih =>
      obtain ⟨m, b⟩ := f
      cases hkm : compare k m with
      | lt => simpa [put, hkm] using h
      | eq =>
          simp only [put, hkm, List.mem_cons] at h ⊢
          rcases h with h | h
          · exact Or.inl h
          · exact Or.inr (Or.inr h)
      | gt =>
          simp only [put, hkm, List.mem_cons] at h ⊢
          rcases h with h | h
          · exact Or.inr (Or.inl h)
          · rcases ih h with h | h
            · exact Or.inl h
            · exact Or.inr (Or.inr h)

theorem sorted_put [Std.TransOrd κ] {es : Entries κ α} (hs : Sorted es) (k : κ) (a : α) :
    Sorted (put k a es) := by
  induction es with
  | nil => exact sorted_singleton k a
  | cons e es ih =>
      obtain ⟨m, b⟩ := e
      have hm := (sorted_cons.1 hs).1
      cases hkm : compare k m with
      | lt =>
          simp only [put, hkm]
          refine sorted_cons.2 ⟨fun e he => ?_, hs⟩
          rcases List.mem_cons.1 he with rfl | he
          · exact hkm
          · exact Std.TransCmp.lt_trans hkm (hm e he)
      | eq =>
          obtain rfl := Std.LawfulEqOrd.eq_of_compare hkm
          simp only [put, Std.ReflOrd.compare_self]
          exact sorted_cons.2 ⟨hm, (sorted_cons.1 hs).2⟩
      | gt =>
          simp only [put, hkm]
          refine sorted_cons.2 ⟨fun e he => ?_, ih (sorted_cons.1 hs).2⟩
          rcases mem_put he with rfl | he
          · exact Std.OrientedCmp.lt_of_gt hkm
          · exact hm e he

/-! ## Changing -/

omit [Std.LawfulEqOrd κ] in
theorem get?_adjust_self (k : κ) (f : α → α) (es : Entries κ α) :
    get? k (adjust k f es) = (get? k es).map f := by
  induction es with
  | nil => rfl
  | cons e es ih =>
      obtain ⟨l, b⟩ := e
      by_cases hkl : compare k l = .eq
      · simp [adjust, get?_cons, hkl]
      · simp [adjust, get?_cons, hkl, ih]

theorem get?_adjust_of_ne {k l : κ} (h : l ≠ k) (f : α → α) (es : Entries κ α) :
    get? l (adjust k f es) = get? l es := by
  have hlk : compare l k ≠ .eq := fun hc => h (Std.LawfulEqOrd.eq_of_compare hc)
  induction es with
  | nil => rfl
  | cons e es ih =>
      obtain ⟨m, b⟩ := e
      by_cases hkm : compare k m = .eq
      · obtain rfl := Std.LawfulEqOrd.eq_of_compare hkm
        simp [adjust, get?_cons, hlk]
      · simp [adjust, get?_cons, hkm, ih]

theorem get?_adjust [DecidableEq κ] (k l : κ) (f : α → α) (es : Entries κ α) :
    get? l (adjust k f es) = if l = k then (get? l es).map f else get? l es := by
  split
  · next h => rw [h, get?_adjust_self]
  · next h => rw [get?_adjust_of_ne h]

omit [Std.LawfulEqOrd κ] in
@[simp] theorem keys_adjust (k : κ) (f : α → α) (es : Entries κ α) :
    keys (adjust k f es) = keys es := by
  induction es with
  | nil => rfl
  | cons e es ih =>
      obtain ⟨l, b⟩ := e
      by_cases hkl : compare k l = .eq
      · simp [adjust, hkl, keys]
      · simp only [adjust, hkl, if_false]
        simpa [keys] using ih

omit [Std.LawfulEqOrd κ] in
/-- The order says something about keys only. -/
theorem sorted_iff_keys {es : Entries κ α} :
    Sorted es ↔ (keys es).Pairwise fun x y => compare x y = .lt := by
  rw [Sorted, keys, List.pairwise_map]

omit [Std.LawfulEqOrd κ] in
theorem sorted_adjust {es : Entries κ α} (hs : Sorted es) (k : κ) (f : α → α) :
    Sorted (adjust k f es) := by
  rw [sorted_iff_keys, keys_adjust]
  exact sorted_iff_keys.1 hs

omit [Std.LawfulEqOrd κ] in
/-- What is there after one entry was changed: the others, and that one as it is now. -/
theorem mem_adjust {k : κ} {f : α → α} {es : Entries κ α} {e : κ × α} (h : e ∈ adjust k f es) :
    e ∈ es ∨ ∃ d ∈ es, e = (d.1, f d.2) := by
  induction es with
  | nil => cases h
  | cons d es ih =>
      obtain ⟨l, b⟩ := d
      unfold adjust at h
      split at h
      · rcases List.mem_cons.1 h with rfl | h
        · exact Or.inr ⟨_, List.mem_cons_self, rfl⟩
        · exact Or.inl (List.mem_cons_of_mem _ h)
      · rcases List.mem_cons.1 h with rfl | h
        · exact Or.inl List.mem_cons_self
        · exact (ih h).imp (List.mem_cons_of_mem _) fun ⟨d, hd, he⟩ =>
            ⟨d, List.mem_cons_of_mem _ hd, he⟩

omit [Std.LawfulEqOrd κ] in
theorem adjust_adjust (k : κ) (f g : α → α) (es : Entries κ α) :
    adjust k f (adjust k g es) = adjust k (f ∘ g) es := by
  induction es with
  | nil => rfl
  | cons e es ih =>
      obtain ⟨l, b⟩ := e
      by_cases hkl : compare k l = .eq
      · simp [adjust, hkl]
      · simp [adjust, hkl, ih]

omit [Std.LawfulEqOrd κ] in
/-- A change that leaves the stored value as it is changes nothing. -/
theorem adjust_eq_self {k : κ} {f : α → α} {es : Entries κ α}
    (h : ∀ a, get? k es = some a → f a = a) : adjust k f es = es := by
  induction es with
  | nil => rfl
  | cons e es ih =>
      obtain ⟨l, b⟩ := e
      by_cases hkl : compare k l = .eq
      · simp [adjust, hkl, h b (by simp [get?_cons, hkl])]
      · simp only [adjust, hkl, if_false, List.cons.injEq, true_and]
        exact ih fun a ha => h a (by simpa [get?_cons, hkl] using ha)

/-! ## Dropping -/

theorem get?_drop_self {es : Entries κ α} (hs : Sorted es) (k : κ) : get? k (drop k es) = none := by
  induction es with
  | nil => rfl
  | cons e es ih =>
      obtain ⟨l, b⟩ := e
      rw [sorted_cons] at hs
      by_cases hkl : compare k l = .eq
      · obtain rfl := Std.LawfulEqOrd.eq_of_compare hkl
        simpa [drop] using get?_eq_none_of_lt hs.1
      · simp [drop, get?_cons, hkl, ih hs.2]

theorem get?_drop_of_ne {k l : κ} (h : l ≠ k) (es : Entries κ α) :
    get? l (drop k es) = get? l es := by
  have hlk : compare l k ≠ .eq := fun hc => h (Std.LawfulEqOrd.eq_of_compare hc)
  induction es with
  | nil => rfl
  | cons e es ih =>
      obtain ⟨m, b⟩ := e
      by_cases hkm : compare k m = .eq
      · obtain rfl := Std.LawfulEqOrd.eq_of_compare hkm
        simp [drop, get?_cons, hlk]
      · simp [drop, get?_cons, hkm, ih]

omit [Std.LawfulEqOrd κ] in
theorem drop_sublist (k : κ) (es : Entries κ α) : (drop k es).Sublist es := by
  induction es with
  | nil => exact List.Sublist.slnil
  | cons e es ih =>
      obtain ⟨l, b⟩ := e
      by_cases hkl : compare k l = .eq
      · simp [drop, hkl]
      · simp [drop, hkl, ih]

omit [Std.LawfulEqOrd κ] in
theorem sorted_drop {es : Entries κ α} (hs : Sorted es) (k : κ) : Sorted (drop k es) :=
  List.Pairwise.sublist (drop_sublist k es) hs

theorem get?_drop [DecidableEq κ] {es : Entries κ α} (hs : Sorted es) (k l : κ) :
    get? l (drop k es) = if l = k then none else get? l es := by
  split
  · next h => rw [h, get?_drop_self hs]
  · next h => rw [get?_drop_of_ne h]

omit [Std.LawfulEqOrd κ] in
/-- A value that is dropped may be changed before. -/
theorem drop_adjust_self (k : κ) (f : α → α) (es : Entries κ α) :
    drop k (adjust k f es) = drop k es := by
  induction es with
  | nil => rfl
  | cons e es ih =>
      obtain ⟨l, b⟩ := e
      by_cases hkl : compare k l = .eq
      · simp [adjust, drop, hkl]
      · simp [adjust, drop, hkl, ih]

/-! ## Changing all values -/

/-- Changes every value. -/
def mapValues (g : κ → α → α) (es : Entries κ α) : Entries κ α := es.map fun e => (e.1, g e.1 e.2)

omit [Ord κ] [Std.LawfulEqOrd κ] in
theorem mapValues_cons (g : κ → α → α) (k : κ) (a : α) (es : Entries κ α) :
    mapValues g ((k, a) :: es) = (k, g k a) :: mapValues g es := rfl

omit [Ord κ] [Std.LawfulEqOrd κ] in
@[simp] theorem keys_mapValues (g : κ → α → α) (es : Entries κ α) :
    keys (mapValues g es) = keys es := by
  simp [keys, mapValues]

omit [Std.LawfulEqOrd κ] in
theorem sorted_mapValues {es : Entries κ α} (hs : Sorted es) (g : κ → α → α) :
    Sorted (mapValues g es) := by
  rw [sorted_iff_keys, keys_mapValues]
  exact sorted_iff_keys.1 hs

theorem get?_mapValues (g : κ → α → α) (k : κ) (es : Entries κ α) :
    get? k (mapValues g es) = (get? k es).map (g k) := by
  induction es with
  | nil => rfl
  | cons e es ih =>
      obtain ⟨l, b⟩ := e
      rw [mapValues_cons, get?_cons, get?_cons, ih]
      split
      · next hkl => rw [Std.LawfulEqOrd.eq_of_compare hkl]; rfl
      · rfl

theorem adjust_mapValues {k : κ} {f : α → α} {g : κ → α → α} (h : ∀ a, f (g k a) = g k (f a))
    (es : Entries κ α) : adjust k f (mapValues g es) = mapValues g (adjust k f es) := by
  induction es with
  | nil => rfl
  | cons e es ih =>
      obtain ⟨l, b⟩ := e
      by_cases hkl : compare k l = .eq
      · obtain rfl := Std.LawfulEqOrd.eq_of_compare hkl
        simp [mapValues_cons, adjust, h]
      · simp [mapValues_cons, adjust, hkl, ih]

omit [Std.LawfulEqOrd κ] in
theorem drop_mapValues (k : κ) (g : κ → α → α) (es : Entries κ α) :
    drop k (mapValues g es) = mapValues g (drop k es) := by
  induction es with
  | nil => rfl
  | cons e es ih =>
      obtain ⟨l, b⟩ := e
      by_cases hkl : compare k l = .eq
      · simp [mapValues_cons, drop, hkl]
      · simp [mapValues_cons, drop, hkl, ih]

/-- Changing all values and then one value once more. -/
theorem adjust_mapValues_eq {es : Entries κ α} (hs : Sorted es) {k : κ} {f : α → α}
    {g g' : κ → α → α} (hk : ∀ a, f (g k a) = g' k a) (hne : ∀ l, l ≠ k → g l = g' l) :
    adjust k f (mapValues g es) = mapValues g' es := by
  induction es with
  | nil => rfl
  | cons e es ih =>
      obtain ⟨l, b⟩ := e
      rw [sorted_cons] at hs
      rw [mapValues_cons, mapValues_cons]
      by_cases hkl : compare k l = .eq
      · obtain rfl := Std.LawfulEqOrd.eq_of_compare hkl
        -- the key stands here, so it does not stand further down
        have hrest : mapValues g es = mapValues g' es := by
          refine List.map_congr_left fun e he => ?_
          have hlt := hs.1 e he
          have hek : e.1 ≠ k := by
            intro heq
            rw [heq, Std.ReflOrd.compare_self] at hlt
            cases hlt
          rw [hne e.1 hek]
        rw [hrest]
        simp [adjust, hk]
      · have hlk : l ≠ k := by
          rintro rfl
          exact hkl Std.ReflOrd.compare_self
        rw [← ih hs.2, ← hne l hlk]
        simp [adjust, hkl]

/-! ## Undoing -/

/-- Storing twice under one key is storing the second value. -/
theorem put_put (k : κ) (a b : α) (es : Entries κ α) : put k b (put k a es) = put k b es := by
  induction es with
  | nil => simp [put]
  | cons e es ih =>
      obtain ⟨l, c⟩ := e
      cases hkl : compare k l with
      | lt => simp [put, hkl]
      | eq => simp [put, hkl]
      | gt => simp [put, hkl, ih]

/-- Storing what is stored already changes nothing. -/
theorem put_eq_self [Std.TransOrd κ] {k : κ} {a : α} {es : Entries κ α} (hs : Sorted es)
    (h : get? k es = some a) : put k a es = es := by
  induction es with
  | nil => cases h
  | cons e es ih =>
      obtain ⟨l, c⟩ := e
      rw [sorted_cons] at hs
      rw [get?_cons] at h
      cases hkl : compare k l with
      | lt =>
          rw [if_neg (by simp [hkl])] at h
          have hlk := hs.1 _ (mem_of_get? h)
          rw [Std.OrientedCmp.gt_of_lt hkl] at hlk
          cases hlk
      | eq =>
          obtain rfl := Std.LawfulEqOrd.eq_of_compare hkl
          simp_all [put]
      | gt =>
          rw [if_neg (by simp [hkl])] at h
          simp [put, hkl, ih hs.2 h]

/-- A key that was stored where there was none is dropped without a trace. -/
theorem drop_put {k : κ} {es : Entries κ α} (h : get? k es = none) (a : α) :
    drop k (put k a es) = es := by
  induction es with
  | nil => simp [put, drop]
  | cons e es ih =>
      obtain ⟨l, c⟩ := e
      rw [get?_cons] at h
      cases hkl : compare k l with
      | lt => simp [put, hkl, drop]
      | eq => simp [hkl] at h
      | gt =>
          rw [if_neg (by simp [hkl])] at h
          simp [put, hkl, drop, ih h]

omit [Std.LawfulEqOrd κ] in
theorem drop_eq_self {k : κ} {es : Entries κ α} (h : get? k es = none) : drop k es = es := by
  induction es with
  | nil => rfl
  | cons e es ih =>
      obtain ⟨l, c⟩ := e
      rw [get?_cons] at h
      by_cases hkl : compare k l = .eq
      · simp [hkl] at h
      · rw [if_neg hkl] at h
        simp [drop, hkl, ih h]

/-- A value that is stored may be dropped before. -/
theorem put_drop [Std.TransOrd κ] {es : Entries κ α} (hs : Sorted es) (k : κ) (a : α) :
    put k a (drop k es) = put k a es := by
  induction es with
  | nil => rfl
  | cons e es ih =>
      obtain ⟨l, c⟩ := e
      rw [sorted_cons] at hs
      cases hkl : compare k l with
      | lt =>
          have hnone : get? k es = none :=
            get?_eq_none_of_lt fun e he => Std.TransCmp.lt_trans hkl (hs.1 e he)
          simp [put, drop, hkl, drop_eq_self hnone]
      | eq =>
          obtain rfl := Std.LawfulEqOrd.eq_of_compare hkl
          cases es with
          | nil => simp [put, drop]
          | cons e es =>
              have he := hs.1 e List.mem_cons_self
              simp [put, drop, he]
      | gt => simp [put, drop, hkl, ih hs.2]

/-! ## Collecting -/

omit [Std.LawfulEqOrd κ] in
/-- What is stored under a key above all others comes last. -/
theorem put_of_gt {k : κ} {es : Entries κ α} (h : ∀ e ∈ es, compare k e.1 = .gt) (a : α) :
    put k a es = es ++ [(k, a)] := by
  induction es with
  | nil => rfl
  | cons e es ih =>
      obtain ⟨l, b⟩ := e
      have hkl : compare k l = .gt := h (l, b) List.mem_cons_self
      simp only [put, hkl, List.cons_append, ih fun e he => h e (List.mem_cons_of_mem _ he)]

omit [Std.LawfulEqOrd κ] in
/-- **Entries in order are collected as they stand.** -/
theorem collect_eq_self [Std.OrientedOrd κ] {es : Entries κ α} (hs : Sorted es) :
    collect es = es := by
  -- the entries stored so far stand before those to come
  have hfold : ∀ rest front : Entries κ α, Sorted (front ++ rest) →
      rest.foldl (fun es e => put e.1 e.2 es) front = front ++ rest := by
    intro rest
    induction rest with
    | nil => intro front _; simp
    | cons e rest ih =>
        intro front hfront
        have hlast : put e.1 e.2 front = front ++ [e] :=
          put_of_gt (fun f hf => Std.OrientedCmp.gt_of_lt
            ((List.pairwise_append.1 hfront).2.2 f hf e List.mem_cons_self)) e.2
        rw [List.foldl_cons, hlast, ih (front ++ [e]) (by simpa using hfront),
          List.append_assoc]
        rfl
  exact hfold es [] hs

omit [Std.LawfulEqOrd κ] in
/-- Nothing is collected that was not there. -/
theorem mem_of_mem_collect {xs : List (κ × α)} {e : κ × α} (h : e ∈ collect xs) : e ∈ xs := by
  have hfold : ∀ (xs : List (κ × α)) (es : Entries κ α),
      e ∈ xs.foldl (fun es e => put e.1 e.2 es) es → e ∈ es ∨ e ∈ xs := by
    intro xs
    induction xs with
    | nil => exact fun es h => Or.inl h
    | cons x xs ih =>
        intro es h
        rcases ih _ h with h | h
        · rcases mem_put h with rfl | h
          · exact Or.inr List.mem_cons_self
          · exact Or.inl h
        · exact Or.inr (List.mem_cons_of_mem x h)
  rcases hfold xs [] h with h | h
  · cases h
  · exact h

/-- What is collected is in order. -/
theorem sorted_collect [Std.TransOrd κ] (xs : List (κ × α)) : Sorted (collect xs) := by
  have hfold : ∀ (xs : List (κ × α)) (es : Entries κ α), Sorted es →
      Sorted (xs.foldl (fun es e => put e.1 e.2 es) es) := by
    intro xs
    induction xs with
    | nil => exact fun es h => h
    | cons x xs ih => exact fun es h => ih _ (sorted_put h x.1 x.2)
  exact hfold xs [] sorted_nil

omit [Std.LawfulEqOrd κ] in
theorem perm_put {k : κ} {es : Entries κ α} (h : get? k es = none) (a : α) :
    (put k a es).Perm ((k, a) :: es) := by
  induction es with
  | nil => exact List.Perm.refl _
  | cons e es ih =>
      obtain ⟨l, b⟩ := e
      rw [get?_cons] at h
      cases hkl : compare k l with
      | lt =>
          simp only [put, hkl]
          exact List.Perm.refl _
      | eq => simp [hkl] at h
      | gt =>
          rw [if_neg (by simp [hkl])] at h
          simp only [put, hkl]
          exact ((ih h).cons (l, b)).trans (List.Perm.swap _ _ _)

/-- Putting is adding to what is left without the key. -/
theorem perm_put_drop [Std.TransOrd κ] {es : Entries κ α} (hs : Sorted es) (k : κ) (a : α) :
    (put k a es).Perm ((k, a) :: drop k es) := by
  have hput := perm_put (get?_drop_self hs k) a
  rwa [put_drop hs] at hput

/-- A value leaves with its key. -/
theorem perm_values_drop [Std.TransOrd κ] {es : Entries κ α} (hs : Sorted es) {k : κ} {a : α}
    (h : get? k es = some a) : (values es).Perm (a :: values (drop k es)) := by
  have hput := (perm_put_drop hs k a).map Prod.snd
  rwa [put_eq_self hs h] at hput

/-- A value comes with a key, and the one that had the key goes. -/
theorem perm_values_put [Std.TransOrd κ] {es : Entries κ α} (hs : Sorted es) (k : κ) (a : α) :
    (values (put k a es) ++ (get? k es).toList).Perm (a :: values es) := by
  have hput : (values (put k a es)).Perm (a :: values (drop k es)) :=
    (perm_put_drop hs k a).map Prod.snd
  cases hk : get? k es with
  | none =>
      rw [drop_eq_self hk] at hput
      simpa using hput
  | some b =>
      refine (hput.append_right [b]).trans (List.Perm.cons a ?_)
      exact List.perm_append_comm.trans (perm_values_drop hs hk).symm

/-- **Nothing is lost where no key comes twice.** -/
theorem perm_collect {xs : List (κ × α)} (h : (keys xs).Nodup) : (collect xs).Perm xs := by
  have hfold : ∀ (xs : List (κ × α)) (es : Entries κ α), (keys xs).Nodup →
      (∀ k ∈ keys xs, get? k es = none) →
      (xs.foldl (fun es e => put e.1 e.2 es) es).Perm (es ++ xs) := by
    intro xs
    induction xs with
    | nil => intro es _ _; simp
    | cons x xs ih =>
        intro es hnodup hfresh
        obtain ⟨hx, hnodup⟩ := List.nodup_cons.1 hnodup
        have hput := perm_put (hfresh x.1 List.mem_cons_self) x.2
        refine (ih (put x.1 x.2 es) hnodup fun k hk => ?_).trans ?_
        · have hkx : k ≠ x.1 := fun h => hx (h ▸ hk)
          rw [get?_put_of_ne hkx]
          exact hfresh k (List.mem_cons_of_mem _ hk)
        · exact (hput.append_right xs).trans List.perm_middle.symm
  exact hfold xs [] h fun k _ => get?_nil k

omit [Std.LawfulEqOrd κ] in
/-- The order leaves no choice. -/
theorem eq_of_perm [Std.OrientedOrd κ] {es fs : Entries κ α} (hes : Sorted es) (hfs : Sorted fs)
    (h : es.Perm fs) : es = fs := by
  refine List.Perm.eq_of_pairwise (fun x y _ _ hxy hyx => ?_) hes hfs h
  rw [Std.OrientedCmp.gt_of_lt hxy] at hyx
  cases hyx

/-- How entries are listed does not matter, as long as no key comes twice. -/
theorem collect_eq_of_perm [Std.TransOrd κ] {xs ys : List (κ × α)} (h : (keys xs).Nodup)
    (hp : xs.Perm ys) : collect xs = collect ys :=
  eq_of_perm (sorted_collect xs) (sorted_collect ys)
    ((perm_collect h).trans (hp.trans (perm_collect ((hp.map Prod.fst).nodup_iff.1 h)).symm))

/-- In order no key comes twice. -/
theorem Sorted.nodup {es : Entries κ α} (h : Sorted es) : (keys es).Nodup :=
  (sorted_iff_keys.1 h).imp fun hlt heq => by
    rw [heq, Std.ReflOrd.compare_self] at hlt
    cases hlt

/-- **In order, entries are what is found in them.** -/
theorem eq_of_get? [Std.OrientedOrd κ] {es fs : Entries κ α} (hes : Sorted es) (hfs : Sorted fs)
    (h : ∀ k, get? k es = get? k fs) : es = fs := by
  have hmem : ∀ {gs : Entries κ α}, Sorted gs → ∀ e, e ∈ gs ↔ get? e.1 gs = some e.2 :=
    fun hgs _ => ⟨get?_of_mem hgs, mem_of_get?⟩
  have hnodup : ∀ {gs : Entries κ α}, Sorted gs → gs.Nodup := fun hgs =>
    List.Pairwise.of_map Prod.fst (fun _ _ hne heq => hne (congrArg Prod.fst heq)) hgs.nodup
  refine eq_of_perm hes hfs ((List.perm_ext_iff_of_nodup (hnodup hes) (hnodup hfs)).2 fun e => ?_)
  rw [hmem hes, hmem hfs, h]

end Entries

namespace Members

variable {κ : Type} [Ord κ] [Std.LawfulEqOrd κ]

@[simp] theorem has_add_self (k : κ) (s : Members κ) : has k (add k s) = true := by
  simp [has, add, Entries.has]

theorem has_add_of_ne {k l : κ} (h : l ≠ k) (s : Members κ) : has l (add k s) = has l s := by
  simp [has, add, Entries.has, Entries.get?_put_of_ne h]

theorem has_remove_self {s : Members κ} (hs : Entries.Sorted s) (k : κ) :
    has k (remove k s) = false := by
  simp [has, remove, Entries.has, Entries.get?_drop_self hs]

theorem has_remove_of_ne {k l : κ} (h : l ≠ k) (s : Members κ) :
    has l (remove k s) = has l s := by
  simp [has, remove, Entries.has, Entries.get?_drop_of_ne h]

omit [Std.LawfulEqOrd κ] in
/-- A set that has a member is not empty. -/
theorem ne_nil_of_has {k : κ} {s : Members κ} (h : has k s = true) : s ≠ [] := by
  rintro rfl
  cases h

/-- A set that is not empty has a member. -/
theorem exists_has {s : Members κ} (h : s ≠ []) : ∃ k, has k s = true := by
  cases s with
  | nil => exact absurd rfl h
  | cons e s => exact ⟨e.1, by simp [has, Entries.has, Entries.get?]⟩

/-- A member that was added is removed without a trace. -/
theorem remove_add {k : κ} {s : Members κ} (h : has k s = false) : remove k (add k s) = s := by
  refine Entries.drop_put ?_ ()
  cases hk : Entries.get? k s with
  | none => rfl
  | some u => simp [has, Entries.has, hk] at h

end Members

end ObjectBus
