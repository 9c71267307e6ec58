import Mathlib.Data.List.Perm.Subperm
import Mathlib.Order.Nat
import ObjectBus.Proofs.Value.Import

/-!
# What importing loses

Importing puts objects in the place of paths, also where a path is a key of a map. Two paths may lead
to one object. Then keys that differ outside are one key inside (`Value.KeysMeet`), and of their
entries only the last is kept, whatever is in the others.

Nothing else is lost. This is shown by counting: an imported value is made of as many values as were
sent, unless keys meet, and of fewer if they do (`Value.kept_or_lost`). So keys meet nowhere if and
only if the value has the same form inside as it had outside (`Value.restored_iff`). They cannot meet
where no key of a map may be an object, or where different paths lead to different objects.
-/

set_option autoImplicit false

namespace ObjectBus

namespace Entries

variable {κ α : Type} [Ord κ] [Std.LawfulEqOrd κ] [Std.TransOrd κ]

/-- What is collected is among what was there, and no entry is taken twice. -/
theorem subperm_collect (xs : List (κ × α)) : (collect xs).Subperm xs :=
  List.Nodup.subperm (List.Nodup.of_map Prod.fst (sorted_collect xs).nodup)
    fun _ he => mem_of_mem_collect he

/-- **Something is lost where a key comes twice.** -/
theorem length_collect_lt {xs : List (κ × α)} (h : ¬(keys xs).Nodup) :
    (collect xs).length < xs.length := by
  refine lt_of_le_of_ne (subperm_collect xs).length_le fun hlen => h ?_
  have hperm := (subperm_collect xs).perm_of_length_le hlen.ge
  exact (hperm.map Prod.fst).nodup_iff.1 (sorted_collect xs).nodup

end Entries

namespace Value

/-- **A value with objects in the place of some of its paths**, and otherwise the same at every depth;
the entries of a map stand in one-to-one correspondence, in whatever order. -/
inductive Restored (objectAt : String → Option ObjectId) : Value → Value → Prop
  | path {p : String} {o : ObjectId} (h : objectAt p = some o) :
      Restored objectAt (.scalar .path p) (.scalar .object o)
  | scalar {s : Scalar} (x : s.Carrier) : Restored objectAt (.scalar s x) (.scalar s x)
  | vector {xs ys : List Value} (h : List.Forall₂ (Restored objectAt) xs ys) :
      Restored objectAt (.vector xs) (.vector ys)
  | tuple {xs ys : List Value} (h : List.Forall₂ (Restored objectAt) xs ys) :
      Restored objectAt (.tuple xs) (.tuple ys)
  | map {es fs gs : List (Value × Value)}
      (keys : List.Forall₂ (Restored objectAt) (Entries.keys es) (Entries.keys fs))
      (values : List.Forall₂ (Restored objectAt) (Entries.values es) (Entries.values fs))
      (order : fs.Perm gs) : Restored objectAt (.map es) (.map gs)

/-- **Keys of a map meet**, at some depth: they differ, and are imported as the same key. -/
inductive KeysMeet (objectAt : String → Option ObjectId) : Value → Shape → Prop
  | here {es : List (Value × Value)} {e f : Value × Value} {k u : Shape} (he : e ∈ es) (hf : f ∈ es)
      (hne : e.1 ≠ f.1) (h : e.1.imported objectAt k = f.1.imported objectAt k) :
      KeysMeet objectAt (.map es) (.map k u)
  | item {xs : List Value} {x : Value} {e : Shape} (hx : x ∈ xs) (h : KeysMeet objectAt x e) :
      KeysMeet objectAt (.vector xs) (.vector e)
  | field {xs : List Value} {ts : List Shape} {e : Value × Shape} (hlen : xs.length = ts.length)
      (he : e ∈ xs.zip ts) (h : KeysMeet objectAt e.1 e.2) : KeysMeet objectAt (.tuple xs) (.tuple ts)
  | key {es : List (Value × Value)} {e : Value × Value} {k u : Shape} (he : e ∈ es)
      (h : KeysMeet objectAt e.1 k) : KeysMeet objectAt (.map es) (.map k u)
  | value {es : List (Value × Value)} {e : Value × Value} {k u : Shape} (he : e ∈ es)
      (h : KeysMeet objectAt e.2 u) : KeysMeet objectAt (.map es) (.map k u)

/-! ## Size accounting -/

mutual
/-- The number of values that a value is made of, at every depth. -/
def size : Value → Nat
  | .scalar _ _ => 1
  | .vector xs => 1 + sizeOfAll xs
  | .tuple xs => 1 + sizeOfAll xs
  | .map es => 1 + sizeOfEntries es

/-- The number of values that a list of values is made of. -/
def sizeOfAll : List Value → Nat
  | [] => 0
  | x :: xs => x.size + sizeOfAll xs

/-- The number of values that a list of entries is made of. -/
def sizeOfEntries : List (Value × Value) → Nat
  | [] => 0
  | (k, v) :: es => k.size + v.size + sizeOfEntries es
end

attribute [simp] size sizeOfAll sizeOfEntries

theorem size_pos (v : Value) : 0 < v.size := by
  cases v <;> simp [Nat.add_comm 1]

theorem sizeOfAll_append (xs ys : List Value) :
    sizeOfAll (xs ++ ys) = sizeOfAll xs + sizeOfAll ys := by
  induction xs with
  | nil => simp
  | cons x xs ih => simp [ih, Nat.add_assoc]

theorem sizeOfEntries_of_perm {es fs : List (Value × Value)} (h : es.Perm fs) :
    sizeOfEntries es = sizeOfEntries fs := by
  induction h with
  | nil => rfl
  | cons e _ ih => rw [sizeOfEntries, sizeOfEntries, ih]
  | swap e f es =>
      simp only [sizeOfEntries]
      omega
  | trans _ _ ih ih' => exact ih.trans ih'

theorem sizeOfEntries_of_sublist {es fs : List (Value × Value)} (h : es.Sublist fs) :
    sizeOfEntries es ≤ sizeOfEntries fs := by
  induction h with
  | slnil => exact le_rfl
  | cons e _ ih => exact ih.trans (Nat.le_add_left _ _)
  | cons_cons e _ ih => exact Nat.add_le_add_left ih _

theorem sizeOfEntries_of_subperm {es fs : List (Value × Value)} (h : es.Subperm fs) :
    sizeOfEntries es ≤ sizeOfEntries fs := by
  obtain ⟨gs, hperm, hsub⟩ := h
  rw [← sizeOfEntries_of_perm hperm]
  exact sizeOfEntries_of_sublist hsub

theorem sizeOfEntries_collect_lt {es : List (Value × Value)} (h : ¬(Entries.keys es).Nodup) :
    sizeOfEntries (Entries.collect es) < sizeOfEntries es := by
  obtain ⟨e, he⟩ :=
    (Entries.subperm_collect es).exists_of_length_lt (Entries.length_collect_lt h)
  have hle := sizeOfEntries_of_subperm he
  have hpos := e.1.size_pos
  rw [sizeOfEntries] at hle
  omega

theorem sizeOfEntries_eq_add (es : List (Value × Value)) :
    sizeOfEntries es = sizeOfAll (Entries.keys es) + sizeOfAll (Entries.values es) := by
  induction es with
  | nil => rfl
  | cons e es ih =>
      simp only [Entries.keys, Entries.values] at ih
      simp only [sizeOfEntries, Entries.keys, Entries.values, List.map_cons, sizeOfAll, ih]
      omega

theorem sizeOfAll_le_of_forall₂ {xs ys : List Value}
    (h : List.Forall₂ (fun x y => y.size ≤ x.size) xs ys) : sizeOfAll ys ≤ sizeOfAll xs := by
  induction h with
  | nil => exact le_rfl
  | cons hxy _ ih => exact Nat.add_le_add hxy ih

theorem sizeOfEntries_le_of_forall₂ {es fs : List (Value × Value)}
    (h : List.Forall₂ (fun e f => f.1.size ≤ e.1.size ∧ f.2.size ≤ e.2.size) es fs) :
    sizeOfEntries fs ≤ sizeOfEntries es := by
  induction h with
  | nil => exact le_rfl
  | cons hef _ ih => exact Nat.add_le_add (Nat.add_le_add hef.1 hef.2) ih

section Restoring

variable {objectAt : String → Option ObjectId}

theorem sizeOfAll_of_forall₂ {xs ys : List Value}
    (h : List.Forall₂ (fun x y => y.size = x.size) xs ys) : sizeOfAll ys = sizeOfAll xs := by
  induction h with
  | nil => rfl
  | cons hxy _ ih => rw [sizeOfAll, sizeOfAll, hxy, ih]

/-- Putting objects for paths does not change the size. -/
theorem Restored.size_eq {v w : Value} (h : v.Restored objectAt w) : w.size = v.size := by
  induction v using Value.induction generalizing w with
  | scalar s x => cases h <;> rfl
  | vector xs ih =>
      cases h with
      | vector h =>
          rw [size, size, sizeOfAll_of_forall₂ (forall₂_imp_of_mem h fun x hx y _ => ih x hx)]
  | tuple xs ih =>
      cases h with
      | tuple h =>
          rw [size, size, sizeOfAll_of_forall₂ (forall₂_imp_of_mem h fun x hx y _ => ih x hx)]
  | map es ih =>
      cases h with
      | map keys values order =>
          have hkeys := sizeOfAll_of_forall₂ (forall₂_imp_of_mem keys fun x hx y _ => by
            obtain ⟨e, he, rfl⟩ := List.mem_map.1 hx
            exact (ih e he).1)
          have hvalues := sizeOfAll_of_forall₂ (forall₂_imp_of_mem values fun x hx y _ => by
            obtain ⟨e, he, rfl⟩ := List.mem_map.1 hx
            exact (ih e he).2)
          rw [size, size, ← sizeOfEntries_of_perm order, sizeOfEntries_eq_add, hkeys, hvalues,
            ← sizeOfEntries_eq_add]

@[refl] theorem Restored.refl (v : Value) : v.Restored objectAt v := by
  induction v using Value.induction with
  | scalar s x => exact .scalar x
  | vector xs ih => exact .vector (List.forall₂_same.2 ih)
  | tuple xs ih => exact .tuple (List.forall₂_same.2 ih)
  | map es ih =>
      refine .map (List.forall₂_same.2 fun x hx => ?_) (List.forall₂_same.2 fun x hx => ?_)
        (List.Perm.refl es)
      · obtain ⟨e, he, rfl⟩ := List.mem_map.1 hx
        exact (ih e he).1
      · obtain ⟨e, he, rfl⟩ := List.mem_map.1 hx
        exact (ih e he).2

end Restoring

/-! ## Induction over an import -/

section Importing

variable {objectAt : String → Option ObjectId}

theorem map_fst_zip_append_drop (xs : List Value) (ts : List Shape) :
    (xs.zip ts).map Prod.fst ++ xs.drop ts.length = xs := by
  induction xs generalizing ts with
  | nil => simp
  | cons x xs ih => cases ts <;> simp [ih]

/-- **Induction over an import**: what holds of every part, for its shape, and what it enters as holds
of the whole. What does not fit the shape passes: nothing is looked up in it, and no keys meet. -/
@[elab_as_elim]
theorem imported_induction
    {motive : ∀ (v : Value) (t : Shape) (w : Value), v.imported objectAt t = .ok w → Prop}
    (path : ∀ p o, objectAt p = some o →
      ∀ h, motive (.scalar .path p) (.scalar .object) (.scalar .object o) h)
    (passed : ∀ v t, (∀ p, ¬v.Asks t p) → ¬v.KeysMeet objectAt t → ∀ h, motive v t v h)
    (vector : ∀ xs e ys, List.Forall₂ (fun x y => ∃ h, motive x e y h) xs ys →
      ∀ h, motive (.vector xs) (.vector e) (.vector ys) h)
    (tuple : ∀ xs ts ys, xs.length = ts.length →
      List.Forall₂ (fun e y => ∃ h, motive e.1 e.2 y h) (xs.zip ts) ys →
      ∀ h, motive (.tuple xs) (.tuple ts) (.tuple ys) h)
    (map : ∀ es k u fs,
      List.Forall₂ (fun e f => (∃ h, motive e.1 k f.1 h) ∧ ∃ h, motive e.2 u f.2 h) es fs →
      ∀ h, motive (.map es) (.map k u) (.ofEntries fs) h)
    (v : Value) (t : Shape) (w : Value) (h : v.imported objectAt t = .ok w) : motive v t w h := by
  have hmisfit : ∀ {v : Value} {t : Shape} {w : Value} (h : v.imported objectAt t = .ok w),
      v.imported objectAt t = .ok v → (∀ p, ¬v.Asks t p) → ¬v.KeysMeet objectAt t →
        motive v t w h := by
    intro v t w h hpass hnone hapart
    obtain rfl : v = w := Except.ok.inj (hpass.symm.trans h)
    exact passed v t hnone hapart h
  induction v using Value.induction generalizing t w with
  | scalar s x =>
      by_cases hpath : s = .path ∧ t = .scalar .object
      · obtain ⟨rfl, rfl⟩ := hpath
        cases hp : objectAt x with
        | none =>
            rw [imported, hp] at h
            cases h
        | some o =>
            obtain rfl : Value.scalar .object o = w := Except.ok.inj ((imported_path hp).symm.trans h)
            exact path x o hp h
      · refine hmisfit h (imported_scalar_of_ne x hpath) ?_ (by rintro ⟨⟩)
        rintro p ⟨⟩
        exact hpath ⟨rfl, rfl⟩
  | vector xs ih =>
      cases t with
      | vector e =>
          obtain ⟨ys, rfl, hys⟩ := imported_vector_eq_ok_iff.1 h
          exact vector xs e ys (forall₂_imp_of_mem hys fun x hx y _ hxy =>
            ⟨hxy, ih x hx e y hxy⟩) h
      | _ => exact hmisfit h rfl (by rintro p ⟨⟩) (by rintro ⟨⟩)
  | tuple xs ih =>
      cases t with
      | tuple ts =>
          by_cases hlen : xs.length = ts.length
          · obtain ⟨ys, rfl, hys⟩ := (imported_tuple_eq_ok_iff hlen).1 h
            exact tuple xs ts ys hlen (forall₂_imp_of_mem hys fun e he y _ hey =>
              ⟨hey, ih e.1 (List.of_mem_zip he).1 e.2 y hey⟩) h
          · refine hmisfit h (imported_tuple_of_ne hlen) ?_ ?_
            · rintro p ⟨⟩
              exact hlen ‹_›
            · rintro ⟨⟩
              exact hlen ‹_›
      | _ => exact hmisfit h rfl (by rintro p ⟨⟩) (by rintro ⟨⟩)
  | map es ih =>
      cases t with
      | map k u =>
          obtain ⟨fs, rfl, hfs⟩ := imported_map_eq_ok_iff.1 h
          exact map es k u fs (forall₂_imp_of_mem hfs fun e he f _ hef =>
            ⟨⟨hef.1, (ih e he).1 k f.1 hef.1⟩, ⟨hef.2, (ih e he).2 u f.2 hef.2⟩⟩) h
      | _ => exact hmisfit h rfl (by rintro p ⟨⟩) (by rintro ⟨⟩)

/-! ## What is kept and what is lost -/

/-- **Everything is kept**: no keys meet, and the value has the same form at every depth. -/
structure Kept (objectAt : String → Option ObjectId) (v : Value) (t : Shape) (w : Value) : Prop where
  apart : ¬v.KeysMeet objectAt t
  restored : v.Restored objectAt w

/-- **Something is lost**: keys meet, and the value is smaller. -/
structure Lost (objectAt : String → Option ObjectId) (v : Value) (t : Shape) (w : Value) : Prop where
  meet : v.KeysMeet objectAt t
  smaller : w.size < v.size

theorem sizeOfAll_of_kept {es : List (Value × Shape)} {ys : List Value}
    (h : List.Forall₂ (fun e y => Kept objectAt e.1 e.2 y) es ys) :
    sizeOfAll ys = sizeOfAll (es.map Prod.fst) :=
  sizeOfAll_of_forall₂ <| List.forall₂_map_left_iff.2 <| h.imp fun _ _ hey => hey.restored.size_eq

/-- Of values that are imported for one shape each, all are kept, or the whole is smaller. -/
theorem kept_or_lost_of_forall₂ {es : List (Value × Shape)} {ys : List Value}
    (h : List.Forall₂ (fun e y => Kept objectAt e.1 e.2 y ∨ Lost objectAt e.1 e.2 y) es ys) :
    List.Forall₂ (fun e y => Kept objectAt e.1 e.2 y) es ys ∨
      (∃ e ∈ es, e.1.KeysMeet objectAt e.2) ∧ sizeOfAll ys < sizeOfAll (es.map Prod.fst) := by
  induction h with
  | nil => exact .inl .nil
  | @cons e y es ys hey _ ih =>
      rw [List.map_cons, sizeOfAll, sizeOfAll]
      rcases ih with hall | ⟨⟨f, hf, hmeet⟩, hlt⟩
      · rcases hey with hkept | hlost
        · exact .inl (.cons hkept hall)
        · have hsmaller := hlost.smaller
          have hrest := sizeOfAll_of_kept hall
          exact .inr ⟨⟨e, List.mem_cons_self, hlost.meet⟩, by omega⟩
      · have hle : y.size ≤ e.1.size := by
          rcases hey with hkept | hlost
          · exact hkept.restored.size_eq.le
          · exact hlost.smaller.le
        exact .inr ⟨⟨f, List.mem_cons_of_mem e hf, hmeet⟩, by omega⟩

/-- The same for values that are imported for one shape. -/
theorem kept_or_lost_of_items {xs ys : List Value} {t : Shape}
    (h : List.Forall₂ (fun x y => Kept objectAt x t y ∨ Lost objectAt x t y) xs ys) :
    ((∀ x ∈ xs, ¬x.KeysMeet objectAt t) ∧ List.Forall₂ (Restored objectAt) xs ys) ∨
      (∃ x ∈ xs, x.KeysMeet objectAt t) ∧ sizeOfAll ys < sizeOfAll xs := by
  have hmap : (xs.map fun x => (x, t)).map Prod.fst = xs := by
    rw [List.map_map]
    exact List.map_id xs
  have hpairs : List.Forall₂ (fun e y => Kept objectAt e.1 e.2 y ∨ Lost objectAt e.1 e.2 y)
      (xs.map fun x => (x, t)) ys := List.forall₂_map_left_iff.2 h
  rcases kept_or_lost_of_forall₂ hpairs with hall | ⟨⟨e, he, hmeet⟩, hlt⟩
  · rw [List.forall₂_map_left_iff] at hall
    refine .inl ⟨fun x hx => ?_, hall.imp fun _ _ hxy => hxy.restored⟩
    obtain ⟨y, -, hxy⟩ := exists_left_of_forall₂ hall.flip hx
    exact hxy.apart
  · obtain ⟨x, hx, rfl⟩ := List.mem_map.1 he
    exact .inr ⟨⟨x, hx, hmeet⟩, hmap ▸ hlt⟩

theorem sizeOfAll_le_of_items {xs ys : List Value} {t : Shape}
    (h : List.Forall₂ (fun x y => Kept objectAt x t y ∨ Lost objectAt x t y) xs ys) :
    sizeOfAll ys ≤ sizeOfAll xs := by
  rcases kept_or_lost_of_items h with ⟨-, hrestored⟩ | ⟨-, hlt⟩
  · exact (sizeOfAll_of_forall₂ (hrestored.imp fun _ _ hxy => hxy.size_eq)).le
  · exact hlt.le

/-- No key comes twice inside if and only if no keys of the map meet. -/
theorem nodup_keys_imported_iff {es fs : List (Value × Value)} {k : Shape}
    (hes : (Entries.keys es).Nodup)
    (h : List.Forall₂ (fun e f => e.1.imported objectAt k = .ok f.1) es fs) :
    (Entries.keys fs).Nodup ↔
      ∀ e ∈ es, ∀ f ∈ es, e.1.imported objectAt k = f.1.imported objectAt k → e.1 = f.1 := by
  have hkeys : (Entries.keys es).map (fun x => x.imported objectAt k) =
      (Entries.keys fs).map Except.ok := by
    rw [Entries.keys, Entries.keys, List.map_map, List.map_map]
    exact map_eq_of_forall₂ h
  rw [← List.nodup_map_iff (f := Except.ok (ε := Fault)) fun _ _ => Except.ok.inj, ← hkeys,
    List.nodup_map_iff_inj_on hes]
  simp only [Entries.keys, List.forall_mem_map]

/-- The entries of a map are all kept if all their parts are and no two of their keys meet. -/
theorem kept_or_lost_of_entries {es fs : List (Value × Value)} {k u : Shape}
    (hes : Entries.Sorted es)
    (hkey : List.Forall₂ (fun e f => e.1.imported objectAt k = .ok f.1) es fs)
    (hkeys : List.Forall₂ (fun x y => Kept objectAt x k y ∨ Lost objectAt x k y)
      (Entries.keys es) (Entries.keys fs))
    (hvalues : List.Forall₂ (fun x y => Kept objectAt x u y ∨ Lost objectAt x u y)
      (Entries.values es) (Entries.values fs)) :
    Kept objectAt (.map es) (.map k u) (.ofEntries fs) ∨
      Lost objectAt (.map es) (.map k u) (.ofEntries fs) := by
  have hcollect := sizeOfEntries_of_subperm (Entries.subperm_collect fs)
  have hkeysLe := sizeOfAll_le_of_items hkeys
  have hvaluesLe := sizeOfAll_le_of_items hvalues
  have hsum := sizeOfEntries_eq_add es
  have hsum' := sizeOfEntries_eq_add fs
  rcases kept_or_lost_of_items hkeys with ⟨hkeysApart, hkeys⟩ | ⟨⟨x, hx, hmeet⟩, hlt⟩
  · rcases kept_or_lost_of_items hvalues with ⟨hvaluesApart, hvalues⟩ | ⟨⟨y, hy, hmeet⟩, hlt⟩
    · by_cases hnodup : (Entries.keys fs).Nodup
      · refine .inl ⟨?_, .map hkeys hvalues (Entries.perm_collect hnodup).symm⟩
        rintro (⟨he, hf, hne, heq⟩ | _ | _ | ⟨he, hmeet⟩ | ⟨he, hmeet⟩)
        · exact hne ((nodup_keys_imported_iff hes.nodup hkey).1 hnodup _ he _ hf heq)
        · exact hkeysApart _ (List.mem_map_of_mem he) hmeet
        · exact hvaluesApart _ (List.mem_map_of_mem he) hmeet
      · -- of the entries whose keys are one key now, some are dropped
        have hdropped := sizeOfEntries_collect_lt hnodup
        rw [nodup_keys_imported_iff hes.nodup hkey] at hnodup
        simp only [not_forall] at hnodup
        obtain ⟨e, he, f, hf, heq, hne⟩ := hnodup
        refine .inr ⟨.here he hf hne heq, ?_⟩
        rw [ofEntries, size, size]
        omega
    · obtain ⟨e, he, rfl⟩ := List.mem_map.1 hy
      refine .inr ⟨.value he hmeet, ?_⟩
      rw [ofEntries, size, size]
      omega
  · obtain ⟨e, he, rfl⟩ := List.mem_map.1 hx
    refine .inr ⟨.key he hmeet, ?_⟩
    rw [ofEntries, size, size]
    omega

/-- **Importing keeps everything, unless keys meet; then something is lost.** -/
theorem kept_or_lost {v w : Value} {t : Shape} (hv : v.WellFormed)
    (h : v.imported objectAt t = .ok w) : Kept objectAt v t w ∨ Lost objectAt v t w := by
  induction v, t, w, h using imported_induction with
  | path p o hp _ => exact .inl ⟨by rintro ⟨⟩, .path hp⟩
  | passed v t _ hapart _ => exact .inl ⟨hapart, .refl v⟩
  | vector xs e ys hys _ =>
      have hitems := forall₂_imp_of_mem hys fun x hx y _ hxy =>
        hxy.snd (allWellFormed_iff.1 hv x hx)
      rcases kept_or_lost_of_items hitems with ⟨hapart, hrestored⟩ | ⟨⟨x, hx, hmeet⟩, hlt⟩
      · refine .inl ⟨?_, .vector hrestored⟩
        rintro (_ | ⟨hx, hmeet⟩)
        exact hapart _ hx hmeet
      · exact .inr ⟨.item hx hmeet, Nat.add_lt_add_left hlt 1⟩
  | tuple xs ts ys hlen hys _ =>
      have hfst : (xs.zip ts).map Prod.fst = xs := List.map_fst_zip hlen.le
      have hfields := forall₂_imp_of_mem hys fun e he y _ hey =>
        hey.snd (allWellFormed_iff.1 hv e.1 (List.of_mem_zip he).1)
      rcases kept_or_lost_of_forall₂ hfields with hall | ⟨⟨e, he, hmeet⟩, hlt⟩
      · refine .inl ⟨?_, .tuple ?_⟩
        · rintro (_ | _ | ⟨-, he, hmeet⟩)
          obtain ⟨y, -, hey⟩ := exists_left_of_forall₂ hall.flip he
          exact hey.apart hmeet
        · rw [← hfst, List.forall₂_map_left_iff]
          exact hall.imp fun _ _ hey => hey.restored
      · rw [hfst] at hlt
        exact .inr ⟨.field hlen he hmeet, Nat.add_lt_add_left hlt 1⟩
  | map es k u fs hfs _ =>
      have hparts := entriesWellFormed_iff.1 hv.2
      refine kept_or_lost_of_entries hv.1 (hfs.imp fun _ _ hef => hef.1.fst) ?_ ?_
      · rw [Entries.keys, Entries.keys, List.forall₂_map_left_iff, List.forall₂_map_right_iff]
        exact forall₂_imp_of_mem hfs fun e he _ _ hef => hef.1.snd (hparts e he).1
      · rw [Entries.values, Entries.values, List.forall₂_map_left_iff, List.forall₂_map_right_iff]
        exact forall₂_imp_of_mem hfs fun e he _ _ hef => hef.2.snd (hparts e he).2

/-- **A value has inside the form that it had outside if and only if no keys meet.** -/
theorem restored_iff {v w : Value} {t : Shape} (hv : v.WellFormed)
    (h : v.imported objectAt t = .ok w) :
    v.Restored objectAt w ↔ ¬v.KeysMeet objectAt t := by
  rcases kept_or_lost hv h with hkept | hlost
  · exact iff_of_true hkept.restored hkept.apart
  · refine iff_of_false (fun hrestored => ?_) (not_not_intro hlost.meet)
    exact absurd hrestored.size_eq hlost.smaller.ne

/-- **Keys meet if and only if the value comes in smaller.** -/
theorem keysMeet_iff_size_lt {v w : Value} {t : Shape} (hv : v.WellFormed)
    (h : v.imported objectAt t = .ok w) : v.KeysMeet objectAt t ↔ w.size < v.size := by
  rcases kept_or_lost hv h with hkept | hlost
  · exact iff_of_false hkept.apart hkept.restored.size_eq.not_lt
  · exact iff_of_true hlost.meet hlost.smaller

/-- **Arguments have inside the form that they had outside if and only if no keys meet**; further ones
pass. -/
theorem restored_fields_iff {xs ys : List Value} {ts : List Shape} (hxs : ∀ x ∈ xs, x.WellFormed)
    (h : importedFields objectAt xs ts = .ok ys) :
    List.Forall₂ (Restored objectAt) xs ys ↔
      ∀ e ∈ xs.zip ts, ¬e.1.KeysMeet objectAt e.2 := by
  obtain ⟨zs, rfl, hzs⟩ := importedFields_eq_ok_iff.1 h
  have hsplit := map_fst_zip_append_drop xs ts
  have hfields := forall₂_imp_of_mem hzs fun e he z _ hez =>
    kept_or_lost (hxs e.1 (List.of_mem_zip he).1) hez
  rcases kept_or_lost_of_forall₂ hfields with hall | ⟨⟨e, he, hmeet⟩, hlt⟩
  · refine iff_of_true ?_ fun e he => ?_
    · have hfront : List.Forall₂ (Restored objectAt) ((xs.zip ts).map Prod.fst) zs :=
        List.forall₂_map_left_iff.2 (hall.imp fun _ _ hez => hez.restored)
      have hwhole : List.Forall₂ (Restored objectAt)
          ((xs.zip ts).map Prod.fst ++ xs.drop ts.length) (zs ++ xs.drop ts.length) :=
        List.rel_append hfront (List.forall₂_same.2 fun x _ => Restored.refl x)
      rwa [hsplit] at hwhole
    · obtain ⟨z, -, hez⟩ := exists_left_of_forall₂ hall.flip he
      exact hez.apart
  · refine iff_of_false (fun hrestored => ?_) fun hapart => hapart e he hmeet
    have hsize := sizeOfAll_of_forall₂ (hrestored.imp fun _ _ hxy => hxy.size_eq)
    rw [sizeOfAll_append] at hsize
    have hsize' := congrArg sizeOfAll hsplit
    rw [sizeOfAll_append] at hsize'
    omega

/-! ## Where keys cannot meet -/

/-- What nothing is asked for comes in as it is. -/
theorem eq_of_imported_of_not_asks {v w : Value} {t : Shape} (hv : v.WellFormed)
    (hnone : ∀ p, ¬v.Asks t p) (h : v.imported objectAt t = .ok w) : w = v := by
  induction v, t, w, h using imported_induction with
  | path p o _ _ => exact absurd (.path p) (hnone p)
  | passed v t _ _ _ => rfl
  | vector xs e ys hys _ =>
      have heq : List.Forall₂ Eq xs ys := forall₂_imp_of_mem hys fun x hx y _ hxy =>
        (hxy.snd (allWellFormed_iff.1 hv x hx) fun p hp => hnone p (.item hx hp)).symm
      rw [List.forall₂_eq_eq_eq] at heq
      rw [heq]
  | tuple xs ts ys hlen hys _ =>
      have heq : List.Forall₂ (fun e y => e.1 = y) (xs.zip ts) ys :=
        forall₂_imp_of_mem hys fun e he y _ hey =>
          (hey.snd (allWellFormed_iff.1 hv e.1 (List.of_mem_zip he).1) fun p hp =>
            hnone p (.field hlen he hp)).symm
      have hmap := map_eq_of_forall₂ (g := id) heq
      rw [List.map_id, List.map_fst_zip hlen.le] at hmap
      rw [hmap]
  | map es k u fs hfs _ =>
      have hparts := entriesWellFormed_iff.1 hv.2
      have heq : List.Forall₂ Eq es fs := forall₂_imp_of_mem hfs fun e he f _ hef =>
        (Prod.ext (hef.1.snd (hparts e he).1 fun p hp => hnone p (.key he hp))
          (hef.2.snd (hparts e he).2 fun p hp => hnone p (.value he hp))).symm
      rw [List.forall₂_eq_eq_eq] at heq
      rw [← heq, ofEntries, Entries.collect_eq_self hv.1]

theorem imported_eq_self {v : Value} {t : Shape} (hv : v.WellFormed) (hnone : ∀ p, ¬v.Asks t p) :
    v.imported objectAt t = .ok v := by
  obtain ⟨w, hw⟩ := exists_imported_iff.2 fun p hp => absurd hp (hnone p)
  obtain rfl := eq_of_imported_of_not_asks hv hnone hw
  exact hw

/-- **Keys that may not be objects do not meet.** -/
theorem not_keysMeet_of_plain {v : Value} {t : Shape} (hv : v.WellFormed)
    (hplain : ∀ k u, (Shape.map k u).PartOf t → ¬(Shape.scalar .object).PartOf k) :
    ¬v.KeysMeet objectAt t := by
  intro h
  induction h with
  | @here es e f k u he hf hne heq =>
      have hnone := fun w => not_asks_of_not_partOf (v := w) (hplain k u (.self _))
      have hparts := entriesWellFormed_iff.1 hv.2
      rw [imported_eq_self (hparts e he).1 (hnone e.1), imported_eq_self (hparts f hf).1 (hnone f.1)]
        at heq
      exact hne (Except.ok.inj heq)
  | item hx _ ih => exact ih (allWellFormed_iff.1 hv _ hx) fun k u hk => hplain k u (.element hk)
  | field _ he _ ih =>
      obtain ⟨hx, ht⟩ := List.of_mem_zip he
      exact ih (allWellFormed_iff.1 hv _ hx) fun k u hk => hplain k u (.field ht hk)
  | key he _ ih => exact ih (entriesWellFormed_iff.1 hv.2 _ he).1 fun k u hk => hplain k u (.key hk)
  | value he _ ih =>
      exact ih (entriesWellFormed_iff.1 hv.2 _ he).2 fun k u hk => hplain k u (.value hk)

end Importing

section Returning

variable {addressOf : ObjectId → Option String} {objectAt : String → Option ObjectId}

/-- What holds no objects leaves as it is. -/
theorem exported_eq_self {v : Value} (hv : v.WellFormed) (hobjects : v.objects = []) :
    v.exported addressOf = .ok v := by
  induction v using Value.induction with
  | scalar s x =>
      refine exported_scalar x ?_
      rintro rfl
      cases hobjects
  | vector xs ih =>
      exact exported_vector_eq_ok_iff.2 ⟨xs, rfl, List.forall₂_same.2 fun x hx =>
        ih x hx (allWellFormed_iff.1 hv x hx) (objectsOfAll_eq_nil_iff.1 hobjects x hx)⟩
  | tuple xs ih =>
      exact exported_tuple_eq_ok_iff.2 ⟨xs, rfl, List.forall₂_same.2 fun x hx =>
        ih x hx (allWellFormed_iff.1 hv x hx) (objectsOfAll_eq_nil_iff.1 hobjects x hx)⟩
  | map es ih =>
      refine exported_map_eq_ok_iff.2 ⟨es, ?_, List.forall₂_same.2 fun e he => ?_⟩
      · rw [ofEntries, Entries.collect_eq_self hv.1]
      · have hwell := entriesWellFormed_iff.1 hv.2 e he
        have hnone := objectsOfEntries_eq_nil_iff.1 hobjects e he
        exact ⟨(ih e he).1 hwell.1 hnone.1, (ih e he).2 hwell.2 hnone.2⟩

/-- **What was imported leaves as it came**, if every path that was looked up is the address of what
was found. -/
theorem exported_of_imported {v w : Value} {t : Shape} (hv : v.WellFormed)
    (hobjects : v.objects = [])
    (hback : ∀ p o, v.Asks t p → objectAt p = some o → addressOf o = some p)
    (h : v.imported objectAt t = .ok w) : w.exported addressOf = .ok v := by
  induction v, t, w, h using imported_induction with
  | path p o hp _ => exact exported_object_eq_ok_iff.2 ⟨p, hback p o (.path p) hp, rfl⟩
  | passed v t _ _ _ => exact exported_eq_self hv hobjects
  | vector xs e ys hys _ =>
      refine exported_vector_eq_ok_iff.2 ⟨xs, rfl, List.Forall₂.flip ?_⟩
      exact forall₂_imp_of_mem hys fun x hx y _ hxy => hxy.snd (allWellFormed_iff.1 hv x hx)
        (objectsOfAll_eq_nil_iff.1 hobjects x hx) fun p o hp => hback p o (.item hx hp)
  | tuple xs ts ys hlen hys _ =>
      refine exported_tuple_eq_ok_iff.2 ⟨xs, rfl, List.Forall₂.flip ?_⟩
      rw [← List.map_fst_zip hlen.le, List.forall₂_map_left_iff]
      refine forall₂_imp_of_mem hys fun e he y _ hey => ?_
      have hx := (List.of_mem_zip he).1
      exact hey.snd (allWellFormed_iff.1 hv e.1 hx) (objectsOfAll_eq_nil_iff.1 hobjects e.1 hx)
        fun p o hp => hback p o (.field hlen he hp)
  | map es k u fs hfs _ =>
      obtain ⟨hsorted, hentries⟩ := hv
      have hleave := forall₂_imp_of_mem (S := fun e f =>
        f.1.exported addressOf = .ok e.1 ∧ f.2.exported addressOf = .ok e.2) hfs
        fun e he f _ hef => by
          have hwell := entriesWellFormed_iff.1 hentries e he
          have hnone := objectsOfEntries_eq_nil_iff.1 hobjects e he
          exact ⟨hef.1.snd hwell.1 hnone.1 fun p o hp => hback p o (.key he hp),
            hef.2.snd hwell.2 hnone.2 fun p o hp => hback p o (.value he hp)⟩
      have hnodup := nodup_keys_of_image (g := exported addressOf) hsorted.nodup
        (hleave.imp fun _ _ hef => hef.1)
      exact exported_map_eq_ok_iff.2 (exists_of_collect hsorted hnodup hleave.flip)

/-- A value does not grow when it leaves. -/
theorem size_le_of_exported {v w : Value} (h : v.exported addressOf = .ok w) : w.size ≤ v.size := by
  induction v, w, h using exported_induction with
  | object o address _ _ => exact le_rfl
  | scalar s x _ _ => exact le_rfl
  | vector xs ys hys _ =>
      exact Nat.add_le_add_left (sizeOfAll_le_of_forall₂ (hys.imp fun _ _ hxy => hxy.snd)) 1
  | tuple xs ys hys _ =>
      exact Nat.add_le_add_left (sizeOfAll_le_of_forall₂ (hys.imp fun _ _ hxy => hxy.snd)) 1
  | map es fs hfs _ =>
      have hentries := sizeOfEntries_le_of_forall₂ (hfs.imp fun _ _ hef => ⟨hef.1.snd, hef.2.snd⟩)
      exact Nat.add_le_add_left
        ((sizeOfEntries_of_subperm (Entries.subperm_collect fs)).trans hentries) 1

/-- What can leave as it came has lost nothing on its way in. -/
theorem restored_of_exported {v w : Value} {t : Shape} (hv : v.WellFormed)
    (h : v.imported objectAt t = .ok w) (hback : w.exported addressOf = .ok v) :
    v.Restored objectAt w := by
  rcases kept_or_lost hv h with hkept | hlost
  · exact hkept.restored
  · exact absurd (size_le_of_exported hback) (Nat.not_le.2 hlost.smaller)

/-- **Where different paths lead to different objects, nothing is lost.** -/
theorem restored_of_injective {v w : Value} {t : Shape} (hv : v.WellFormed)
    (hobjects : v.objects = [])
    (hinjective : ∀ p q, v.Asks t p → v.Asks t q → objectAt p = objectAt q → p = q)
    (h : v.imported objectAt t = .ok w) : v.Restored objectAt w := by
  -- what is found for a path may be given this path as its address
  have hexists : ∀ o, ∃ address : Option String, ∀ p, v.Asks t p → objectAt p = some o →
      address = some p := by
    intro o
    by_cases hpath : ∃ p, v.Asks t p ∧ objectAt p = some o
    · obtain ⟨p, hp, ho⟩ := hpath
      exact ⟨some p, fun q hq hqo => congrArg some (hinjective p q hp hq (ho.trans hqo.symm))⟩
    · exact ⟨none, fun p hp ho => absurd ⟨p, hp, ho⟩ hpath⟩
  choose addressOf haddress using hexists
  exact restored_of_exported hv h
    (exported_of_imported hv hobjects (fun p o hp ho => haddress o p hp ho) h)

end Returning

end Value

end ObjectBus
