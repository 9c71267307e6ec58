import Mathlib.Data.List.Nodup
import ObjectBus.Loopback.Exchange
import ObjectBus.Proofs.Value.Parts

/-!
# Values across the wire

What an exported value looks like, and that importing it for the same shape gives the value back. All
of it is by induction over what is exported (`Value.exported_induction`), and all that is asked of
the two sides is that an object is found again at the address that stood for it.

Only maps need an argument. Their keys may be objects, so a map comes out in another order than it
went in. But keys that differ cannot leave as the same key, because they would be the same when they
come back; so no entry is lost, and the entries that come back are those that left.
-/

set_option autoImplicit false

namespace ObjectBus

namespace Shape

mutual
theorem isValid_withPaths : (t : Shape) → t.isValid = true → t.withPaths.isValid = true
  | .scalar s, _ => by cases s <;> rfl
  | .vector e, h => isValid_withPaths e h
  | .map k v, h => by
      rw [isValid, Bool.and_eq_true] at h
      rw [withPaths, isValid, isValid_withPaths k h.1, isValid_withPaths v h.2]
      rfl
  | .tuple fs, h => allValid_withPaths fs h

theorem allValid_withPaths : (fs : List Shape) → allValid fs = true →
    allValid (allWithPaths fs) = true
  | [], _ => rfl
  | f :: fs, h => by
      rw [allValid, Bool.and_eq_true] at h
      rw [allWithPaths, allValid, isValid_withPaths f h.1, allValid_withPaths fs h.2]
      rfl
end

theorem withPaths_scalar {s : Scalar} (h : s ≠ .object) : (scalar s).withPaths = .scalar s := by
  cases s <;> first | rfl | exact absurd rfl h

theorem allWithPaths_eq_map (fs : List Shape) : allWithPaths fs = fs.map withPaths := by
  induction fs with
  | nil => rfl
  | cons f fs ih => rw [allWithPaths, ih, List.map_cons]

end Shape

namespace Value

/-- **A value with addresses in the place of its objects**, and otherwise the same at every depth; the
entries of a map stand in one-to-one correspondence, in whatever order. -/
inductive Mirrors (addressOf : ObjectId → Option String) : Value → Value → Prop
  | object {o : ObjectId} {address : String} (h : addressOf o = some address) :
      Mirrors addressOf (.scalar .object o) (.scalar .path address)
  | scalar {s : Scalar} (x : s.Carrier) (h : s ≠ .object) :
      Mirrors addressOf (.scalar s x) (.scalar s x)
  | vector {xs ys : List Value} (h : List.Forall₂ (Mirrors addressOf) xs ys) :
      Mirrors addressOf (.vector xs) (.vector ys)
  | tuple {xs ys : List Value} (h : List.Forall₂ (Mirrors addressOf) xs ys) :
      Mirrors addressOf (.tuple xs) (.tuple ys)
  | map {es fs gs : List (Value × Value)}
      (keys : List.Forall₂ (Mirrors addressOf) (Entries.keys es) (Entries.keys fs))
      (values : List.Forall₂ (Mirrors addressOf) (Entries.values es) (Entries.values fs))
      (order : fs.Perm gs) : Mirrors addressOf (.map es) (.map gs)

/-! ## Exporting -/

section Exporting

variable {addressOf : ObjectId → Option String}

theorem exported_object_eq_ok_iff {o : ObjectId} {w : Value} :
    (scalar .object o).exported addressOf = .ok w ↔
      ∃ address, addressOf o = some address ∧ w = .scalar .path address := by
  rw [exported]
  cases addressOf o <;> simp [eq_comm]

theorem exported_scalar {s : Scalar} (x : s.Carrier) (h : s ≠ .object) :
    (scalar s x).exported addressOf = .ok (.scalar s x) := by
  cases s <;> first | rfl | exact absurd rfl h

theorem exportedAll_eq_mapM (xs : List Value) :
    exportedAll addressOf xs = xs.mapM (exported addressOf) := by
  induction xs with
  | nil => rfl
  | cons x xs ih =>
      rw [exportedAll, List.mapM_cons, ih]
      cases x.exported addressOf with
      | error e => rfl
      | ok y => cases xs.mapM (exported addressOf) <;> rfl

theorem exportedEntries_eq_mapM (es : List (Value × Value)) : exportedEntries addressOf es =
    es.mapM (onEntry (exported addressOf) (exported addressOf)) := by
  induction es with
  | nil => rfl
  | cons e es ih =>
      obtain ⟨k, v⟩ := e
      rw [exportedEntries, List.mapM_cons, onEntry, ih]
      cases k.exported addressOf with
      | error e => rfl
      | ok l =>
          cases v.exported addressOf with
          | error e => rfl
          | ok w => cases es.mapM (onEntry (exported addressOf) (exported addressOf)) <;> rfl

theorem exported_vector (xs : List Value) :
    (vector xs).exported addressOf = (xs.mapM (exported addressOf)).map vector := by
  rw [← exportedAll_eq_mapM]
  rfl

theorem exported_tuple (xs : List Value) :
    (tuple xs).exported addressOf = (xs.mapM (exported addressOf)).map tuple := by
  rw [← exportedAll_eq_mapM]
  rfl

theorem exported_map (es : List (Value × Value)) : (map es).exported addressOf =
    (es.mapM (onEntry (exported addressOf) (exported addressOf))).map ofEntries := by
  rw [← exportedEntries_eq_mapM]
  rfl

theorem exportedAll_eq_ok_iff {xs ys : List Value} : exportedAll addressOf xs = .ok ys ↔
    List.Forall₂ (fun x y => x.exported addressOf = .ok y) xs ys := by
  rw [exportedAll_eq_mapM, mapM_eq_ok_iff]

theorem exported_vector_eq_ok_iff {xs : List Value} {w : Value} :
    (vector xs).exported addressOf = .ok w ↔
      ∃ ys, w = .vector ys ∧ List.Forall₂ (fun x y => x.exported addressOf = .ok y) xs ys := by
  simp only [exported_vector, map_eq_ok_iff, mapM_eq_ok_iff, and_comm]

theorem exported_tuple_eq_ok_iff {xs : List Value} {w : Value} :
    (tuple xs).exported addressOf = .ok w ↔
      ∃ ys, w = .tuple ys ∧ List.Forall₂ (fun x y => x.exported addressOf = .ok y) xs ys := by
  simp only [exported_tuple, map_eq_ok_iff, mapM_eq_ok_iff, and_comm]

theorem exported_map_eq_ok_iff {es : List (Value × Value)} {w : Value} :
    (map es).exported addressOf = .ok w ↔ ∃ fs, w = .ofEntries fs ∧ List.Forall₂ (fun e f =>
      e.1.exported addressOf = .ok f.1 ∧ e.2.exported addressOf = .ok f.2) es fs := by
  simp only [exported_map, map_eq_ok_iff, mapM_eq_ok_iff, onEntry_eq_ok_iff,
    and_comm (b := _ = ofEntries _)]

theorem exists_exportedAll_iff {xs : List Value}
    (h : ∀ x ∈ xs, ((∃ y, x.exported addressOf = .ok y) ↔
      ∀ o ∈ x.objects, (addressOf o).isSome = true)) :
    (∃ ys, List.Forall₂ (fun x y => x.exported addressOf = .ok y) xs ys) ↔
      ∀ o ∈ objectsOfAll xs, (addressOf o).isSome = true := by
  rw [exists_forall₂_iff]
  constructor
  · intro hall o ho
    obtain ⟨x, hx, hox⟩ := mem_objectsOfAll.1 ho
    exact (h x hx).1 (hall x hx) o hox
  · intro hall x hx
    exact (h x hx).2 fun o ho => hall o (mem_objectsOfAll.2 ⟨x, hx, ho⟩)

/-- **A value can be exported if and only if all its objects have an address.** -/
theorem exists_exported_iff {v : Value} :
    (∃ w, v.exported addressOf = .ok w) ↔ ∀ o ∈ v.objects, (addressOf o).isSome = true := by
  induction v using Value.induction with
  | scalar s x =>
      by_cases hs : s = .object
      · subst hs
        simp [exported_object_eq_ok_iff, objects, Option.isSome_iff_exists]
      · simp [exported_scalar x hs, objects_scalar x hs]
  | vector xs ih =>
      simp only [exported_vector_eq_ok_iff, objects, ← exists_exportedAll_iff ih]
      rw [exists_comm]
      simp
  | tuple xs ih =>
      simp only [exported_tuple_eq_ok_iff, objects, ← exists_exportedAll_iff ih]
      rw [exists_comm]
      simp
  | map es ih =>
      simp only [exported_map_eq_ok_iff, objects]
      constructor
      · rintro ⟨_, fs, -, hfs⟩ o ho
        obtain ⟨e, he, hoe⟩ := mem_objectsOfEntries.1 ho
        obtain ⟨f, hk, hv⟩ := exists_forall₂_iff.1 ⟨fs, hfs⟩ e he
        rcases hoe with hoe | hoe
        · exact (ih e he).1.1 ⟨f.1, hk⟩ o hoe
        · exact (ih e he).2.1 ⟨f.2, hv⟩ o hoe
      · intro hall
        have hentry : ∀ e ∈ es, ∃ f : Value × Value,
            e.1.exported addressOf = .ok f.1 ∧ e.2.exported addressOf = .ok f.2 := by
          intro e he
          obtain ⟨k, hk⟩ := (ih e he).1.2 fun o ho =>
            hall o (mem_objectsOfEntries.2 ⟨e, he, Or.inl ho⟩)
          obtain ⟨v, hv⟩ := (ih e he).2.2 fun o ho =>
            hall o (mem_objectsOfEntries.2 ⟨e, he, Or.inr ho⟩)
          exact ⟨(k, v), hk, hv⟩
        obtain ⟨fs, hfs⟩ := exists_forall₂_iff.2 hentry
        exact ⟨_, fs, rfl, hfs⟩

/-- **Exporting fails in one way only.** -/
theorem fault_of_exported {v : Value} {fault : Fault} (h : v.exported addressOf = .error fault) :
    fault = .failed "object is not managed by any node" := by
  induction v using Value.induction with
  | scalar s x =>
      by_cases hs : s = .object
      · subst hs
        rw [exported] at h
        cases hx : addressOf x with
        | none => rw [hx] at h; cases h; rfl
        | some address => rw [hx] at h; cases h
      · rw [exported_scalar x hs] at h
        cases h
  | vector xs ih =>
      rw [exported_vector, map_eq_error_iff] at h
      obtain ⟨x, hx, herror⟩ := exists_of_mapM_eq_error h
      exact ih x hx herror
  | tuple xs ih =>
      rw [exported_tuple, map_eq_error_iff] at h
      obtain ⟨x, hx, herror⟩ := exists_of_mapM_eq_error h
      exact ih x hx herror
  | map es ih =>
      rw [exported_map, map_eq_error_iff] at h
      obtain ⟨e, he, herror⟩ := exists_of_mapM_eq_error h
      rcases onEntry_eq_error_iff.1 herror with hkey | ⟨-, hvalue⟩
      · exact (ih e he).1 hkey
      · exact (ih e he).2 hvalue

theorem fault_of_exportedAll {xs : List Value} {fault : Fault}
    (h : exportedAll addressOf xs = .error fault) :
    fault = .failed "object is not managed by any node" := by
  rw [exportedAll_eq_mapM] at h
  obtain ⟨x, -, hx⟩ := exists_of_mapM_eq_error h
  exact fault_of_exported hx

/-- **Induction over an export**: what holds of every part and what it leaves as holds of the whole. -/
@[elab_as_elim]
theorem exported_induction {motive : ∀ v w : Value, v.exported addressOf = .ok w → Prop}
    (object : ∀ o address, addressOf o = some address →
      ∀ h, motive (.scalar .object o) (.scalar .path address) h)
    (scalar : ∀ s x, s ≠ .object → ∀ h, motive (.scalar s x) (.scalar s x) h)
    (vector : ∀ xs ys, List.Forall₂ (fun x y => ∃ h, motive x y h) xs ys →
      ∀ h, motive (.vector xs) (.vector ys) h)
    (tuple : ∀ xs ys, List.Forall₂ (fun x y => ∃ h, motive x y h) xs ys →
      ∀ h, motive (.tuple xs) (.tuple ys) h)
    (map : ∀ es fs, List.Forall₂ (fun e f => (∃ h, motive e.1 f.1 h) ∧ ∃ h, motive e.2 f.2 h) es fs →
      ∀ h, motive (.map es) (.ofEntries fs) h)
    (v w : Value) (h : v.exported addressOf = .ok w) : motive v w h := by
  induction v using Value.induction generalizing w with
  | scalar s x =>
      by_cases hs : s = .object
      · subst hs
        obtain ⟨address, haddress, rfl⟩ := exported_object_eq_ok_iff.1 h
        exact object x address haddress h
      · obtain rfl : Value.scalar s x = w := Except.ok.inj ((exported_scalar x hs).symm.trans h)
        exact scalar s x hs h
  | vector xs ih =>
      obtain ⟨ys, rfl, hys⟩ := exported_vector_eq_ok_iff.1 h
      exact vector xs ys (forall₂_imp_of_mem hys fun x hx y _ hxy => ⟨hxy, ih x hx y hxy⟩) h
  | tuple xs ih =>
      obtain ⟨ys, rfl, hys⟩ := exported_tuple_eq_ok_iff.1 h
      exact tuple xs ys (forall₂_imp_of_mem hys fun x hx y _ hxy => ⟨hxy, ih x hx y hxy⟩) h
  | map es ih =>
      obtain ⟨fs, rfl, hfs⟩ := exported_map_eq_ok_iff.1 h
      exact map es fs (forall₂_imp_of_mem hfs fun e he f _ hef =>
        ⟨⟨hef.1, (ih e he).1 f.1 hef.1⟩, ⟨hef.2, (ih e he).2 f.2 hef.2⟩⟩) h

/-- **No object leaves.** -/
theorem objects_of_exported {v w : Value} (h : v.exported addressOf = .ok w) : w.objects = [] := by
  induction v, w, h using exported_induction with
  | object o address _ _ => rfl
  | scalar s x hs _ => exact objects_scalar x hs
  | vector xs ys hys _ =>
      refine objectsOfAll_eq_nil_iff.2 fun y hy => ?_
      obtain ⟨x, -, -, hnone⟩ := exists_left_of_forall₂ hys hy
      exact hnone
  | tuple xs ys hys _ =>
      refine objectsOfAll_eq_nil_iff.2 fun y hy => ?_
      obtain ⟨x, -, -, hnone⟩ := exists_left_of_forall₂ hys hy
      exact hnone
  | map es fs hfs _ =>
      refine objectsOfEntries_eq_nil_iff.2 fun f hf => ?_
      obtain ⟨e, -, ⟨-, hkey⟩, ⟨-, hvalue⟩⟩ :=
        exists_left_of_forall₂ hfs (Entries.mem_of_mem_collect hf)
      exact ⟨hkey, hvalue⟩

/-- The maps that leave are maps. -/
theorem wellFormed_of_exported {v w : Value} (h : v.exported addressOf = .ok w) :
    w.WellFormed := by
  induction v, w, h using exported_induction with
  | object o address _ _ => trivial
  | scalar s x _ _ => trivial
  | vector xs ys hys _ =>
      refine allWellFormed_iff.2 fun y hy => ?_
      obtain ⟨x, -, -, hwell⟩ := exists_left_of_forall₂ hys hy
      exact hwell
  | tuple xs ys hys _ =>
      refine allWellFormed_iff.2 fun y hy => ?_
      obtain ⟨x, -, -, hwell⟩ := exists_left_of_forall₂ hys hy
      exact hwell
  | map es fs hfs _ =>
      refine wellFormed_ofEntries fun f hf => ?_
      obtain ⟨e, -, ⟨-, hkey⟩, ⟨-, hvalue⟩⟩ := exists_left_of_forall₂ hfs hf
      exact ⟨hkey, hvalue⟩

/-- **What leaves has the declared shape with paths for objects.** -/
theorem matches_of_exported {v w : Value} {t : Shape} (ht : v.matches? t = true)
    (h : v.exported addressOf = .ok w) : w.matches? t.withPaths = true := by
  induction v, w, h using exported_induction generalizing t with
  | object o address _ _ =>
      obtain rfl := scalar_matches_iff.1 ht
      rfl
  | scalar s x hs _ =>
      obtain rfl := scalar_matches_iff.1 ht
      rw [Shape.withPaths_scalar hs, ht]
  | vector xs ys hys _ =>
      obtain ⟨e, rfl, he, hxs⟩ := vector_matches_iff.1 ht
      refine vector_matches_iff.2 ⟨_, rfl, Shape.isValid_withPaths e he, fun y hy => ?_⟩
      obtain ⟨x, hx, -, hxy⟩ := exists_left_of_forall₂ hys hy
      exact hxy (hxs x hx)
  | tuple xs ys hys _ =>
      obtain ⟨ts, rfl, hxs⟩ := tuple_matches_iff.1 ht
      refine tuple_matches_iff.2 ⟨_, rfl, ?_⟩
      rw [Shape.allWithPaths_eq_map, List.forall₂_map_right_iff]
      exact forall₂_of_common hys hxs fun x _ y t hxy hxt => hxy.snd hxt
  | map es fs hfs _ =>
      obtain ⟨k, u, rfl, ⟨hk, hu⟩, hes⟩ := map_matches_iff.1 ht
      refine map_matches_iff.2 ⟨_, _, rfl,
        ⟨Shape.isValid_withPaths k hk, Shape.isValid_withPaths u hu⟩, fun f hf => ?_⟩
      obtain ⟨e, he, ⟨-, hkey⟩, ⟨-, hvalue⟩⟩ :=
        exists_left_of_forall₂ hfs (Entries.mem_of_mem_collect hf)
      exact ⟨hkey (hes e he).1, hvalue (hes e he).2⟩

end Exporting

/-! ## Importing -/

section Importing

variable {objectAt : String → Option ObjectId}

theorem imported_path {address : String} {o : ObjectId} (h : objectAt address = some o) :
    (scalar .path address).imported objectAt (.scalar .object) = .ok (.scalar .object o) := by
  rw [imported, h]

theorem imported_scalar {s : Scalar} (x : s.Carrier) :
    (scalar s x).imported objectAt (.scalar s) = .ok (.scalar s x) := by
  cases s <;> rfl

theorem importedItems_eq_mapM (xs : List Value) (t : Shape) :
    importedItems objectAt xs t = xs.mapM fun x : Value => x.imported objectAt t := by
  induction xs with
  | nil => rfl
  | cons x xs ih =>
      rw [importedItems, List.mapM_cons, ih]
      cases x.imported objectAt t with
      | error e => rfl
      | ok y => cases xs.mapM fun x : Value => x.imported objectAt t <;> rfl

/-- As many fields as there are shapes are imported one by one, and further ones pass. -/
theorem importedFields_eq_mapM (xs : List Value) (ts : List Shape) :
    importedFields objectAt xs ts =
      ((xs.zip ts).mapM fun e : Value × Shape => e.1.imported objectAt e.2).map
        (· ++ xs.drop ts.length) := by
  induction xs generalizing ts with
  | nil => cases ts <;> rfl
  | cons x xs ih =>
      cases ts with
      | nil => rfl
      | cons t ts =>
          rw [importedFields, List.zip_cons_cons, List.mapM_cons, ih]
          cases x.imported objectAt t with
          | error e => rfl
          | ok y =>
              cases (xs.zip ts).mapM fun e : Value × Shape => e.1.imported objectAt e.2 <;> rfl

theorem importedEntries_eq_mapM (es : List (Value × Value)) (k u : Shape) :
    importedEntries objectAt es k u = es.mapM
      (onEntry (fun x => x.imported objectAt k) fun y => y.imported objectAt u) := by
  induction es with
  | nil => rfl
  | cons e es ih =>
      obtain ⟨x, y⟩ := e
      rw [importedEntries, List.mapM_cons, onEntry, ih]
      cases x.imported objectAt k with
      | error e => rfl
      | ok x' =>
          cases y.imported objectAt u with
          | error e => rfl
          | ok y' =>
              cases es.mapM (onEntry (fun x => x.imported objectAt k)
                fun y => y.imported objectAt u) <;> rfl

theorem imported_vector (xs : List Value) (t : Shape) :
    (vector xs).imported objectAt (.vector t) =
      (xs.mapM fun x : Value => x.imported objectAt t).map vector := by
  rw [← importedItems_eq_mapM]
  rfl

theorem imported_tuple {xs : List Value} {ts : List Shape} (hlen : xs.length = ts.length) :
    (tuple xs).imported objectAt (.tuple ts) =
      ((xs.zip ts).mapM fun e : Value × Shape => e.1.imported objectAt e.2).map tuple := by
  change (if xs.length = ts.length then (importedFields objectAt xs ts).map tuple
    else .ok (.tuple xs)) = _
  rw [if_pos hlen, importedFields_eq_mapM, ← hlen, List.drop_length]
  cases (xs.zip ts).mapM fun e : Value × Shape => e.1.imported objectAt e.2 <;> simp [Except.map]

/-- A tuple with another number of fields passes. -/
theorem imported_tuple_of_ne {xs : List Value} {ts : List Shape} (hlen : xs.length ≠ ts.length) :
    (tuple xs).imported objectAt (.tuple ts) = .ok (.tuple xs) := by
  change (if xs.length = ts.length then _ else _) = _
  rw [if_neg hlen]

theorem imported_map (es : List (Value × Value)) (k u : Shape) :
    (map es).imported objectAt (.map k u) = (es.mapM
      (onEntry (fun x => x.imported objectAt k) fun y => y.imported objectAt u)).map ofEntries := by
  rw [← importedEntries_eq_mapM]
  rfl

theorem importedFields_eq_ok_iff {xs ys : List Value} {ts : List Shape} :
    importedFields objectAt xs ts = .ok ys ↔ ∃ zs, ys = zs ++ xs.drop ts.length ∧
      List.Forall₂ (fun e z => e.1.imported objectAt e.2 = .ok z) (xs.zip ts) zs := by
  simp only [importedFields_eq_mapM, map_eq_ok_iff, mapM_eq_ok_iff, and_comm]

theorem imported_vector_eq_ok_iff {xs : List Value} {t : Shape} {w : Value} :
    (vector xs).imported objectAt (.vector t) = .ok w ↔
      ∃ ys, w = .vector ys ∧ List.Forall₂ (fun x y => x.imported objectAt t = .ok y) xs ys := by
  simp only [imported_vector, map_eq_ok_iff, mapM_eq_ok_iff, and_comm]

theorem imported_tuple_eq_ok_iff {xs : List Value} {ts : List Shape} {w : Value}
    (hlen : xs.length = ts.length) : (tuple xs).imported objectAt (.tuple ts) = .ok w ↔
      ∃ ys, w = .tuple ys ∧
        List.Forall₂ (fun e y => e.1.imported objectAt e.2 = .ok y) (xs.zip ts) ys := by
  simp only [imported_tuple hlen, map_eq_ok_iff, mapM_eq_ok_iff, and_comm]

theorem imported_map_eq_ok_iff {es : List (Value × Value)} {k u : Shape} {w : Value} :
    (map es).imported objectAt (.map k u) = .ok w ↔ ∃ fs, w = .ofEntries fs ∧
      List.Forall₂ (fun e f =>
        e.1.imported objectAt k = .ok f.1 ∧ e.2.imported objectAt u = .ok f.2) es fs := by
  simp only [imported_map, map_eq_ok_iff, mapM_eq_ok_iff, onEntry_eq_ok_iff,
    and_comm (b := _ = ofEntries _)]

end Importing

/-! ## The entries of a map on their way -/

/-- **Keys that come back as different keys were different**, whichever way they go. -/
theorem nodup_keys_of_image {g : Value → Except Fault Value} {es fs : List (Value × Value)}
    (hes : (Entries.keys es).Nodup) (h : List.Forall₂ (fun e f => g f.1 = .ok e.1) es fs) :
    (Entries.keys fs).Nodup := by
  -- the way takes the one list of keys to the other, in which no key comes twice
  have hkeys : (Entries.keys fs).map g = (Entries.keys es).map Except.ok := by
    rw [Entries.keys, Entries.keys, List.map_map, List.map_map]
    exact (map_eq_of_forall₂ (h.imp fun _ _ hef => hef.symm)).symm
  exact List.Nodup.of_map _ (hkeys ▸ hes.map fun _ _ => Except.ok.inj)

/-- **Entries that are collected on the way come back as the map that they left**, if no key of them
comes twice. -/
theorem exists_of_collect {R : Value × Value → Value × Value → Prop} {es fs : List (Value × Value)}
    (hes : Entries.Sorted es) (hfs : (Entries.keys fs).Nodup) (h : List.Forall₂ R fs es) :
    ∃ gs, .map es = ofEntries gs ∧ List.Forall₂ R (Entries.collect fs) gs := by
  -- in the order in which the entries arrive, they come back in some order
  obtain ⟨gs, hgs, hperm⟩ := List.perm_comp_forall₂ (Entries.perm_collect hfs) h
  refine ⟨gs, ?_, hgs⟩
  rw [ofEntries, ← Entries.collect_eq_of_perm hes.nodup hperm.symm, Entries.collect_eq_self hes]

/-! ## There and back -/

section Returning

variable {addressOf : ObjectId → Option String} {objectAt : String → Option ObjectId}

/-- **Values that come back**: their maps are maps, they have the declared shape, and at the address
of an object there is the object. -/
structure Returns (addressOf : ObjectId → Option String) (objectAt : String → Option ObjectId)
    (v : Value) (t : Shape) : Prop where
  wellFormed : v.WellFormed
  shape : v.matches? t = true
  objects : ∀ o ∈ v.objects, ∀ address, addressOf o = some address → objectAt address = some o

theorem Returns.of_vector {xs : List Value} {t : Shape}
    (h : Returns addressOf objectAt (.vector xs) t) :
    ∃ e, t = .vector e ∧ ∀ x ∈ xs, Returns addressOf objectAt x e := by
  obtain ⟨e, rfl, -, hxs⟩ := vector_matches_iff.1 h.shape
  exact ⟨e, rfl, fun x hx => ⟨allWellFormed_iff.1 h.wellFormed x hx, hxs x hx,
    fun o ho => h.objects o (mem_objectsOfAll.2 ⟨x, hx, ho⟩)⟩⟩

theorem Returns.of_tuple {xs : List Value} {t : Shape}
    (h : Returns addressOf objectAt (.tuple xs) t) :
    ∃ ts, t = .tuple ts ∧ List.Forall₂ (Returns addressOf objectAt) xs ts := by
  obtain ⟨ts, rfl, hxs⟩ := tuple_matches_iff.1 h.shape
  exact ⟨ts, rfl, forall₂_imp_of_mem hxs fun x hx t _ hxt =>
    ⟨allWellFormed_iff.1 h.wellFormed x hx, hxt,
      fun o ho => h.objects o (mem_objectsOfAll.2 ⟨x, hx, ho⟩)⟩⟩

theorem Returns.of_map {es : List (Value × Value)} {t : Shape}
    (h : Returns addressOf objectAt (.map es) t) :
    ∃ k u, t = .map k u ∧ Entries.Sorted es ∧
      ∀ e ∈ es, Returns addressOf objectAt e.1 k ∧ Returns addressOf objectAt e.2 u := by
  obtain ⟨k, u, rfl, -, hes⟩ := map_matches_iff.1 h.shape
  refine ⟨k, u, rfl, h.wellFormed.1, fun e he => ?_⟩
  have hwell := entriesWellFormed_iff.1 h.wellFormed.2 e he
  exact ⟨⟨hwell.1, (hes e he).1, fun o ho =>
      h.objects o (mem_objectsOfEntries.2 ⟨e, he, Or.inl ho⟩)⟩,
    ⟨hwell.2, (hes e he).2, fun o ho =>
      h.objects o (mem_objectsOfEntries.2 ⟨e, he, Or.inr ho⟩)⟩⟩

/-- **What was exported is imported as it was.** -/
theorem imported_of_exported {v w : Value} {t : Shape} (hv : Returns addressOf objectAt v t)
    (h : v.exported addressOf = .ok w) : w.imported objectAt t = .ok v := by
  induction v, w, h using exported_induction generalizing t with
  | object o address haddress _ =>
      obtain rfl := scalar_matches_iff.1 hv.shape
      exact imported_path (hv.objects o List.mem_cons_self address haddress)
  | scalar s x _ _ =>
      obtain rfl := scalar_matches_iff.1 hv.shape
      exact imported_scalar x
  | vector xs ys hys _ =>
      obtain ⟨e, rfl, hxs⟩ := hv.of_vector
      exact imported_vector_eq_ok_iff.2 ⟨xs, rfl,
        (forall₂_imp_of_mem hys fun x hx _ _ hxy => hxy.snd (hxs x hx)).flip⟩
  | tuple xs ys hys _ =>
      obtain ⟨ts, rfl, hxs⟩ := hv.of_tuple
      exact (imported_tuple_eq_ok_iff (hys.length_eq.symm.trans hxs.length_eq)).2 ⟨xs, rfl,
        forall₂_zip hys hxs fun x _ y t hxy hxt => hxy.snd hxt⟩
  | map es fs hfs _ =>
      obtain ⟨k, u, rfl, hsorted, hes⟩ := hv.of_map
      have hback := forall₂_imp_of_mem (S := fun e f =>
        f.1.imported objectAt k = .ok e.1 ∧ f.2.imported objectAt u = .ok e.2) hfs
        fun e he f _ hef => ⟨hef.1.snd (hes e he).1, hef.2.snd (hes e he).2⟩
      have hnodup := nodup_keys_of_image (g := fun x => x.imported objectAt k) hsorted.nodup
        (hback.imp fun _ _ hef => hef.1)
      obtain ⟨gs, hmap, hgs⟩ := exists_of_collect hsorted hnodup hback.flip
      exact imported_map_eq_ok_iff.2 ⟨gs, hmap, hgs⟩

/-- **Nothing is lost on the way**: the exported value has the same form at every depth. -/
theorem mirrors_of_exported {v w : Value} {t : Shape} (hv : Returns addressOf objectAt v t)
    (h : v.exported addressOf = .ok w) : v.Mirrors addressOf w := by
  induction v, w, h using exported_induction generalizing t with
  | object o address haddress _ => exact .object haddress
  | scalar s x hs _ => exact .scalar x hs
  | vector xs ys hys _ =>
      obtain ⟨e, rfl, hxs⟩ := hv.of_vector
      exact .vector (forall₂_imp_of_mem hys fun x hx _ _ hxy => hxy.snd (hxs x hx))
  | tuple xs ys hys _ =>
      obtain ⟨ts, rfl, hxs⟩ := hv.of_tuple
      refine .tuple (forall₂_imp_of_mem hys fun x hx y _ hxy => ?_)
      obtain ⟨t, -, hxt⟩ := exists_left_of_forall₂ hxs.flip hx
      exact hxy.snd hxt
  | map es fs hfs _ =>
      obtain ⟨k, u, rfl, hsorted, hes⟩ := hv.of_map
      have hback := forall₂_imp_of_mem (S := fun e f =>
        f.1.imported objectAt k = .ok e.1 ∧ f.2.imported objectAt u = .ok e.2) hfs
        fun e he f _ hef => ⟨imported_of_exported (hes e he).1 hef.1.fst,
          imported_of_exported (hes e he).2 hef.2.fst⟩
      -- so no entry is lost when the exported ones are collected
      have hnodup := nodup_keys_of_image (g := fun x => x.imported objectAt k) hsorted.nodup
        (hback.imp fun _ _ hef => hef.1)
      refine .map ?_ ?_ (Entries.perm_collect hnodup).symm
      · rw [Entries.keys, Entries.keys, List.forall₂_map_left_iff, List.forall₂_map_right_iff]
        exact forall₂_imp_of_mem hfs fun e he _ _ hef => hef.1.snd (hes e he).1
      · rw [Entries.values, Entries.values, List.forall₂_map_left_iff, List.forall₂_map_right_iff]
        exact forall₂_imp_of_mem hfs fun e he _ _ hef => hef.2.snd (hes e he).2

end Returning

end Value

end ObjectBus
