import ObjectBus.Native
import ObjectBus.Proofs.Value.Parts

/-!
# Native values and their encodings

Encoding puts the values of a native type and the values of its shape in bijection. A native map is
given by its entries in whatever order they are listed, as iterating over a hash map lists them, so
a native value is one whose maps hold no key twice (`Native.IsValue`), and two listings are the same
value if they have the same entries (`Native.Same`). Among the listings of a value, decoding gives
the one in key order (`Native.Canonical`), which is how an ordered map lists its entries.

All of this is by induction over native types, with one case for each way to make a type. Only maps
need an argument: encoding rebuilds them under other keys, and no entry is lost because different
keys have different encodings.
-/

set_option autoImplicit false

namespace ObjectBus

namespace Native

/-! ## Native values -/

mutual
/-- **The same native value**: the entries of a map may be listed in another order. -/
def Same : (t : Native) → t.Carrier → t.Carrier → Prop
  | .scalar _, x, y => x = y
  | .vector t, xs, ys => List.Forall₂ (fun x y => t.Same x y) xs ys
  | .map k v, es, fs => ∃ gs : List (k.Carrier × v.Carrier), es.Perm gs ∧
      List.Forall₂ (fun g f => k.Same g.1 f.1 ∧ v.Same g.2 f.2) gs fs
  | .tuple ts, xs, ys => SameFields ts xs ys

/-- The same native values, position by position. -/
def SameFields : (ts : List Native) → Pack ts → Pack ts → Prop
  | [], _, _ => True
  | t :: ts, (x, xs), (y, ys) => t.Same x y ∧ SameFields ts xs ys
end

mutual
/-- **Native values**: no map holds a key twice, at any depth. -/
def IsValue : (t : Native) → t.Carrier → Prop
  | .scalar _, _ => True
  | .vector t, xs => ∀ x ∈ xs, t.IsValue x
  | .map k v, es => es.Pairwise (fun e f => ¬k.Same e.1 f.1) ∧
      ∀ e ∈ es, k.IsValue e.1 ∧ v.IsValue e.2
  | .tuple ts, xs => AreValues ts xs

/-- Native values, position by position. -/
def AreValues : (ts : List Native) → Pack ts → Prop
  | [], _ => True
  | t :: ts, (x, xs) => t.IsValue x ∧ AreValues ts xs
end

mutual
/-- **Native values with all maps listed in key order**, at every depth. -/
def Canonical : (t : Native) → t.Carrier → Prop
  | .scalar _, _ => True
  | .vector t, xs => ∀ x ∈ xs, t.Canonical x
  | .map k v, es => @Entries.Sorted _ _ k.order es ∧ ∀ e ∈ es, k.Canonical e.1 ∧ v.Canonical e.2
  | .tuple ts, xs => AllCanonical ts xs

/-- Native values listed in key order, position by position. -/
def AllCanonical : (ts : List Native) → Pack ts → Prop
  | [], _ => True
  | t :: ts, (x, xs) => t.Canonical x ∧ AllCanonical ts xs
end

attribute [simp] encode encodePack shape shapes Same SameFields IsValue AreValues Canonical
  AllCanonical decode decodeFields

/-! ## What encodings look like -/

/-- The encoding of an entry. -/
def encodeEntry (k v : Native) (e : k.Carrier × v.Carrier) : Value × Value :=
  (k.encode e.1, v.encode e.2)

theorem encode_map (k v : Native) (es : List (k.Carrier × v.Carrier)) :
    (map k v).encode es = .ofEntries (es.map (encodeEntry k v)) := by
  rw [encode]
  rfl

mutual
/-- A native type has a shape that values can have. -/
theorem isValid_shape : (t : Native) → t.shape.isValid = true
  | .scalar s => by rw [shape, Shape.isValid]
  | .vector t => by rw [shape, Shape.isValid, isValid_shape t]
  | .map k v => by rw [shape, Shape.isValid, isValid_shape k, isValid_shape v]; rfl
  | .tuple ts => by rw [shape, Shape.isValid, allValid_shapes ts]

theorem allValid_shapes : (ts : List Native) → Shape.allValid (shapes ts) = true
  | [] => by rw [shapes, Shape.allValid]
  | t :: ts => by rw [shapes, Shape.allValid, isValid_shape t, allValid_shapes ts]; rfl
end

mutual
/-- **Encodings have the shape of their type.** -/
theorem matches_encode : (t : Native) → (x : t.Carrier) → (t.encode x).matches? t.shape = true
  | .scalar s, x => by simp
  | .vector t, xs => by
      rw [encode, shape, Value.matches_vector_iff]
      refine ⟨isValid_shape t, _, rfl, fun w hw => ?_⟩
      obtain ⟨x, -, rfl⟩ := List.mem_map.1 hw
      exact matches_encode t x
  | .map k v, es => by
      rw [encode_map, shape, Value.matches_map_iff]
      refine ⟨⟨isValid_shape k, isValid_shape v⟩, _, rfl, fun w hw => ?_⟩
      obtain ⟨e, -, rfl⟩ := List.mem_map.1 (Entries.mem_of_mem_collect hw)
      exact ⟨matches_encode k e.1, matches_encode v e.2⟩
  | .tuple ts, xs => by
      rw [encode, shape, Value.matches_tuple_iff]
      exact ⟨_, rfl, matches_encodePack ts xs⟩

theorem matches_encodePack : (ts : List Native) → (xs : Pack ts) →
    List.Forall₂ (fun v t => v.matches? t = true) (encodePack ts xs) (shapes ts)
  | [], _ => by
      rw [encodePack, shapes]
      exact .nil
  | t :: ts, (x, xs) => by
      rw [encodePack, shapes]
      exact .cons (matches_encode t x) (matches_encodePack ts xs)
end

mutual
/-- The maps in an encoding are maps. -/
theorem wellFormed_encode : (t : Native) → (x : t.Carrier) → (t.encode x).WellFormed
  | .scalar s, x => by
      rw [encode]
      trivial
  | .vector t, xs => by
      rw [encode]
      refine Value.allWellFormed_iff.2 fun w hw => ?_
      obtain ⟨x, -, rfl⟩ := List.mem_map.1 hw
      exact wellFormed_encode t x
  | .map k v, es => by
      rw [encode_map]
      refine Value.wellFormed_ofEntries fun w hw => ?_
      obtain ⟨e, -, rfl⟩ := List.mem_map.1 hw
      exact ⟨wellFormed_encode k e.1, wellFormed_encode v e.2⟩
  | .tuple ts, xs => by
      rw [encode]
      exact Value.allWellFormed_iff.2 (wellFormed_encodePack ts xs)

theorem wellFormed_encodePack : (ts : List Native) → (xs : Pack ts) →
    ∀ v ∈ encodePack ts xs, v.WellFormed
  | [], _ => by
      rw [encodePack]
      exact fun _ h => nomatch h
  | t :: ts, (x, xs) => by
      rw [encodePack, List.forall_mem_cons]
      exact ⟨wellFormed_encode t x, wellFormed_encodePack ts xs⟩
end

/-! ## What can be decoded -/

/-- The decoding of an entry, the key before its value. -/
def decodeEntry (k w : Native) (e : Value × Value) : Except ValueError (k.Carrier × w.Carrier) := do
  return (← k.decode e.1, ← w.decode e.2)

theorem decodeEntry_eq_ok_iff {k w : Native} {e : Value × Value} {d : k.Carrier × w.Carrier} :
    decodeEntry k w e = .ok d ↔ k.decode e.1 = .ok d.1 ∧ w.decode e.2 = .ok d.2 :=
  onEntry_eq_ok_iff

theorem decodeEntry_eq_error_iff {k w : Native} {e : Value × Value} {f : ValueError} :
    decodeEntry k w e = .error f ↔
      k.decode e.1 = .error f ∨ (∃ x, k.decode e.1 = .ok x) ∧ w.decode e.2 = .error f :=
  onEntry_eq_error_iff

/-- Decoding a map is decoding its entries, which are then put in the order of the keys. -/
theorem decode_map (k w : Native) (vs : List (Value × Value)) : (map k w).decode (.map vs) =
    (vs.mapM (decodeEntry k w)).map (@Entries.collect _ _ k.order) := by
  rw [decode]
  unfold decodeEntry
  split
  · next h => rw [h]; rfl
  · next h => rw [h]; rfl

theorem decode_scalar_eq_ok_iff {s : Scalar} {v : Value} {x : s.Carrier} :
    (scalar s).decode v = .ok x ↔ v = .scalar s x := by
  cases v with
  | scalar r y =>
      rw [decode]
      by_cases h : r = s
      · subst h
        simp
      · simp [h]
  | _ => simp

theorem decode_vector_eq_ok_iff {t : Native} {v : Value} {xs : List t.Carrier} :
    (vector t).decode v = .ok xs ↔
      ∃ vs, v = .vector vs ∧ List.Forall₂ (fun v x => t.decode v = .ok x) vs xs := by
  cases v with
  | vector vs =>
      rw [decode]
      simp only [Value.vector.injEq, exists_eq_left', ← mapM_eq_ok_iff]
  | _ => simp

theorem decode_map_eq_ok_iff {k w : Native} {v : Value} {es : List (k.Carrier × w.Carrier)} :
    (map k w).decode v = .ok es ↔ ∃ vs ds, v = .map vs ∧
      List.Forall₂ (fun v d => k.decode v.1 = .ok d.1 ∧ w.decode v.2 = .ok d.2) vs ds ∧
        es = @Entries.collect _ _ k.order ds := by
  cases v with
  | map vs =>
      simp only [decode_map, map_eq_ok_iff, mapM_eq_ok_iff, decodeEntry_eq_ok_iff, Value.map.injEq]
      simp
  | _ => simp

theorem decode_tuple_eq_ok_iff {ts : List Native} {v : Value} {xs : Pack ts} :
    (tuple ts).decode v = .ok xs ↔
      ∃ vs, v = .tuple vs ∧ vs.length = ts.length ∧ decodeFields ts vs = .ok xs := by
  cases v with
  | tuple vs =>
      rw [decode]
      by_cases h : vs.length = ts.length
      · simp only [h, if_true, Value.tuple.injEq, exists_eq_left', true_and]
      · simp [h]
  | _ => simp

theorem decodeFields_cons_eq_ok_iff {t : Native} {ts : List Native} {v : Value} {vs : List Value}
    {x : t.Carrier} {xs : Pack ts} : decodeFields (t :: ts) (v :: vs) = .ok (x, xs) ↔
      t.decode v = .ok x ∧ decodeFields ts vs = .ok xs := by
  rw [decodeFields]
  cases t.decode v with
  | error e => simp
  | ok y => cases decodeFields ts vs <;> simp

mutual
/-- **A value can be decoded if and only if it has the shape.** -/
theorem exists_decode_iff : (t : Native) → (v : Value) →
    ((∃ x, t.decode v = .ok x) ↔ v.matches? t.shape = true)
  | .scalar s, v => by
      rw [shape, Value.matches_scalar_iff]
      exact exists_congr fun _ => decode_scalar_eq_ok_iff
  | .vector t, v => by
      rw [shape, Value.matches_vector_iff]
      constructor
      · rintro ⟨xs, hxs⟩
        obtain ⟨vs, rfl, hall⟩ := decode_vector_eq_ok_iff.1 hxs
        exact ⟨isValid_shape t, vs, rfl, fun v hv =>
          (exists_decode_iff t v).1 (exists_forall₂_iff.1 ⟨xs, hall⟩ v hv)⟩
      · rintro ⟨-, vs, rfl, hall⟩
        obtain ⟨xs, hxs⟩ := exists_forall₂_iff.2 fun v hv => (exists_decode_iff t v).2 (hall v hv)
        exact ⟨xs, decode_vector_eq_ok_iff.2 ⟨vs, rfl, hxs⟩⟩
  | .map k w, v => by
      rw [shape, Value.matches_map_iff]
      constructor
      · rintro ⟨es, hes⟩
        obtain ⟨vs, ds, rfl, hall, -⟩ := decode_map_eq_ok_iff.1 hes
        refine ⟨⟨isValid_shape k, isValid_shape w⟩, vs, rfl, fun e he => ?_⟩
        obtain ⟨d, hk, hw⟩ := exists_forall₂_iff.1 ⟨ds, hall⟩ e he
        exact ⟨(exists_decode_iff k e.1).1 ⟨d.1, hk⟩, (exists_decode_iff w e.2).1 ⟨d.2, hw⟩⟩
      · rintro ⟨-, vs, rfl, hall⟩
        have hentry : ∀ e ∈ vs, ∃ d : k.Carrier × w.Carrier,
            k.decode e.1 = .ok d.1 ∧ w.decode e.2 = .ok d.2 := by
          intro e he
          obtain ⟨x, hx⟩ := (exists_decode_iff k e.1).2 (hall e he).1
          obtain ⟨y, hy⟩ := (exists_decode_iff w e.2).2 (hall e he).2
          exact ⟨(x, y), hx, hy⟩
        obtain ⟨ds, hds⟩ := exists_forall₂_iff.2 hentry
        exact ⟨_, decode_map_eq_ok_iff.2 ⟨vs, ds, rfl, hds, rfl⟩⟩
  | .tuple ts, v => by
      rw [shape, Value.matches_tuple_iff]
      constructor
      · rintro ⟨xs, hxs⟩
        obtain ⟨vs, rfl, hlen, hxs⟩ := decode_tuple_eq_ok_iff.1 hxs
        exact ⟨vs, rfl, (exists_decodeFields_iff ts vs).1 ⟨hlen, xs, hxs⟩⟩
      · rintro ⟨vs, rfl, hvs⟩
        obtain ⟨hlen, xs, hxs⟩ := (exists_decodeFields_iff ts vs).2 hvs
        exact ⟨xs, decode_tuple_eq_ok_iff.2 ⟨vs, rfl, hlen, hxs⟩⟩

theorem exists_decodeFields_iff : (ts : List Native) → (vs : List Value) →
    ((vs.length = ts.length ∧ ∃ xs, decodeFields ts vs = .ok xs) ↔
      List.Forall₂ (fun v t => v.matches? t = true) vs (shapes ts))
  | [], vs => by simp [shapes, decodeFields]
  | t :: ts, [] => by simp [shapes]
  | t :: ts, v :: vs => by
      rw [shapes, List.forall₂_cons, ← exists_decode_iff t v, ← exists_decodeFields_iff ts vs,
        List.length_cons, List.length_cons, Nat.add_right_cancel_iff]
      constructor
      · rintro ⟨hlen, ⟨x, xs⟩, hxs⟩
        obtain ⟨hx, hrest⟩ := decodeFields_cons_eq_ok_iff.1 hxs
        exact ⟨⟨x, hx⟩, hlen, xs, hrest⟩
      · rintro ⟨⟨x, hx⟩, hlen, xs, hrest⟩
        exact ⟨hlen, (x, xs), decodeFields_cons_eq_ok_iff.2 ⟨hx, hrest⟩⟩
end

/-- **A pack can be decoded if and only if the values have its shapes**, as many as there are. -/
theorem exists_decodePack_iff {ts : List Native} {vs : List Value} :
    (∃ xs, decodePack ts vs = .ok xs) ↔
      List.Forall₂ (fun v t => v.matches? t = true) vs (shapes ts) := by
  rw [← exists_decodeFields_iff, decodePack]
  by_cases hlen : vs.length = ts.length
  · simp [hlen]
  · simp [hlen]

/-! ## Decoding, then encoding -/

instance (t : Native) : @Std.OrientedOrd t.Carrier t.order where
  eq_swap := Value.compare_swap _ _

/-- Entries are in key order if and only if their encodings are. -/
theorem sorted_order_iff {k v : Native} {es : List (k.Carrier × v.Carrier)} :
    @Entries.Sorted _ _ k.order es ↔ Entries.Sorted (es.map (encodeEntry k v)) := by
  unfold Entries.Sorted
  rw [List.pairwise_map]
  rfl

mutual
/-- **What was decoded encodes to what it was**, and its maps are listed in key order. -/
theorem encode_of_decode : (t : Native) → (v : Value) → (x : t.Carrier) → v.WellFormed →
    t.decode v = .ok x → t.encode x = v ∧ t.Canonical x
  | .scalar s, v, x, _, h => by
      rw [decode_scalar_eq_ok_iff.1 h, encode, Canonical]
      exact ⟨rfl, trivial⟩
  | .vector t, v, xs, hv, h => by
      obtain ⟨vs, rfl, hall⟩ := decode_vector_eq_ok_iff.1 h
      have hparts := forall₂_imp_of_mem (S := fun v x => v = t.encode x ∧ t.Canonical x) hall
        fun v hmem x _ hx => by
          have hback := encode_of_decode t v x (Value.allWellFormed_iff.1 hv v hmem) hx
          exact ⟨hback.1.symm, hback.2⟩
      rw [encode, Canonical]
      refine ⟨?_, fun x hx => ?_⟩
      · have hvs := map_eq_of_forall₂ (f := id) (hparts.imp fun _ _ => And.left)
        rw [List.map_id] at hvs
        rw [← hvs]
      · obtain ⟨v, -, hvx⟩ := exists_left_of_forall₂ hparts hx
        exact hvx.2
  | .map k w, v, es, hv, h => by
      obtain ⟨vs, ds, rfl, hall, rfl⟩ := decode_map_eq_ok_iff.1 h
      obtain ⟨hsorted, hentries⟩ := hv
      have hparts := forall₂_imp_of_mem
        (S := fun v d => v = encodeEntry k w d ∧ k.Canonical d.1 ∧ w.Canonical d.2) hall
        fun v hmem d _ hd => by
          have hwell := Value.entriesWellFormed_iff.1 hentries v hmem
          have hkey := encode_of_decode k v.1 d.1 hwell.1 hd.1
          have hvalue := encode_of_decode w v.2 d.2 hwell.2 hd.2
          exact ⟨by rw [encodeEntry, hkey.1, hvalue.1], hkey.2, hvalue.2⟩
      have hvs : vs = ds.map (encodeEntry k w) := by
        have heq := map_eq_of_forall₂ (f := id) (hparts.imp fun _ _ => And.left)
        rwa [List.map_id] at heq
      -- the entries come in the order of their encodings, so collecting leaves them as they stand
      have hsorted' : @Entries.Sorted _ _ k.order ds := sorted_order_iff.2 (hvs ▸ hsorted)
      rw [@Entries.collect_eq_self _ _ k.order _ ds hsorted', encode_map, ← hvs, Canonical,
        Value.ofEntries, Entries.collect_eq_self hsorted]
      refine ⟨rfl, hsorted', fun d hd => ?_⟩
      obtain ⟨v, -, hvd⟩ := exists_left_of_forall₂ hparts hd
      exact hvd.2
  | .tuple ts, v, xs, hv, h => by
      obtain ⟨vs, rfl, hlen, hxs⟩ := decode_tuple_eq_ok_iff.1 h
      have hback := encodePack_of_decodeFields ts vs xs (Value.allWellFormed_iff.1 hv) hlen hxs
      rw [encode, Canonical, hback.1]
      exact ⟨rfl, hback.2⟩

theorem encodePack_of_decodeFields : (ts : List Native) → (vs : List Value) → (xs : Pack ts) →
    (∀ v ∈ vs, v.WellFormed) → vs.length = ts.length → decodeFields ts vs = .ok xs →
      encodePack ts xs = vs ∧ AllCanonical ts xs
  | [], [], _, _, _, _ => by
      rw [encodePack, AllCanonical]
      exact ⟨rfl, trivial⟩
  | t :: ts, v :: vs, (x, xs), hv, hlen, h => by
      obtain ⟨hx, hxs⟩ := decodeFields_cons_eq_ok_iff.1 h
      obtain ⟨hv, hvs⟩ := List.forall_mem_cons.1 hv
      have hhead := encode_of_decode t v x hv hx
      have hrest := encodePack_of_decodeFields ts vs xs hvs (Nat.succ.inj hlen) hxs
      rw [encodePack, AllCanonical, hhead.1, hrest.1]
      exact ⟨rfl, hhead.2, hrest.2⟩
end

/-! ## Encoding tells values apart -/

section Keys

variable {k v : Native} {es : List (k.Carrier × v.Carrier)}

/-- No encoded key comes twice if different keys have different encodings. -/
theorem nodup_keys_encoded
    (hk : ∀ e ∈ es, ∀ f ∈ es, k.encode e.1 = k.encode f.1 → k.Same e.1 f.1)
    (hes : es.Pairwise fun e f => ¬k.Same e.1 f.1) :
    (Entries.keys (es.map (encodeEntry k v))).Nodup := by
  rw [Entries.keys, List.map_map, List.Nodup, List.pairwise_map]
  exact hes.imp_of_mem fun he hf hne heq => hne (hk _ he _ hf heq)

/-- So no entry is lost when the encoded entries are collected. -/
theorem perm_collect_encoded
    (hk : ∀ e ∈ es, ∀ f ∈ es, k.encode e.1 = k.encode f.1 → k.Same e.1 f.1)
    (hes : es.Pairwise fun e f => ¬k.Same e.1 f.1) :
    (Entries.collect (es.map (encodeEntry k v))).Perm (es.map (encodeEntry k v)) :=
  Entries.perm_collect (nodup_keys_encoded hk hes)

end Keys

mutual
/-- **Different values have different encodings.** -/
theorem same_of_encode_eq : (t : Native) → (x y : t.Carrier) → t.IsValue x → t.IsValue y →
    t.encode x = t.encode y → t.Same x y
  | .scalar s, x, y, _, _, h => by
      rw [encode, encode] at h
      rw [Same]
      cases h
      rfl
  | .vector t, xs, ys, hxs, hys, h => by
      rw [IsValue] at hxs hys
      rw [encode, encode, Value.vector.injEq] at h
      rw [Same]
      exact forall₂_imp_of_mem (forall₂_of_map_eq h) fun x hx y hy =>
        same_of_encode_eq t x y (hxs x hx) (hys y hy)
  | .map k v, es, fs, hes, hfs, h => by
      rw [IsValue] at hes hfs
      rw [encode_map, encode_map, Value.ofEntries, Value.ofEntries, Value.map.injEq] at h
      rw [Same]
      have hperm := perm_collect_encoded (v := v) (fun e he f hf =>
        same_of_encode_eq k e.1 f.1 (hes.2 e he).1 (hes.2 f hf).1) hes.1
      have hperm' := perm_collect_encoded (v := v) (fun e he f hf =>
        same_of_encode_eq k e.1 f.1 (hfs.2 e he).1 (hfs.2 f hf).1) hfs.1
      rw [h] at hperm
      -- the entries may be listed so that their encodings stand side by side
      obtain ⟨gs, hgs, heq⟩ := exists_perm_of_map_perm (hperm.symm.trans hperm')
      refine ⟨gs, hgs, forall₂_imp_of_mem (forall₂_of_map_eq heq) fun g hg f hf hgf => ?_⟩
      have hg := hes.2 g (hgs.mem_iff.2 hg)
      have hf := hfs.2 f hf
      exact ⟨same_of_encode_eq k g.1 f.1 hg.1 hf.1 (congrArg Prod.fst hgf),
        same_of_encode_eq v g.2 f.2 hg.2 hf.2 (congrArg Prod.snd hgf)⟩
  | .tuple ts, xs, ys, hxs, hys, h => by
      rw [IsValue] at hxs hys
      rw [encode, encode, Value.tuple.injEq] at h
      rw [Same]
      exact sameFields_of_encodePack_eq ts xs ys hxs hys h

theorem sameFields_of_encodePack_eq : (ts : List Native) → (xs ys : Pack ts) → AreValues ts xs →
    AreValues ts ys → encodePack ts xs = encodePack ts ys → SameFields ts xs ys
  | [], _, _, _, _, _ => by
      rw [SameFields]
      trivial
  | t :: ts, (x, xs), (y, ys), hxs, hys, h => by
      rw [AreValues] at hxs hys
      rw [encodePack, encodePack, List.cons.injEq] at h
      rw [SameFields]
      exact ⟨same_of_encode_eq t x y hxs.1 hys.1 h.1,
        sameFields_of_encodePack_eq ts xs ys hxs.2 hys.2 h.2⟩
end

mutual
/-- **One value has one encoding**, however its maps are listed. -/
theorem encode_eq_of_same : (t : Native) → (x y : t.Carrier) → t.IsValue x → t.Same x y →
    t.encode x = t.encode y
  | .scalar s, x, y, _, h => by
      rw [Same] at h
      rw [encode, encode, h]
  | .vector t, xs, ys, hxs, h => by
      rw [IsValue] at hxs
      rw [Same] at h
      rw [encode, encode, map_eq_of_forall₂ (forall₂_imp_of_mem h fun x hx y _ =>
        encode_eq_of_same t x y (hxs x hx))]
  | .map k v, es, fs, hes, h => by
      rw [IsValue] at hes
      rw [Same] at h
      obtain ⟨gs, hgs, hsame⟩ := h
      -- the encoded entries are the same but for their order, and no key comes twice
      have hnodup := nodup_keys_encoded (v := v) (fun e he f hf =>
        same_of_encode_eq k e.1 f.1 (hes.2 e he).1 (hes.2 f hf).1) hes.1
      have heq : gs.map (encodeEntry k v) = fs.map (encodeEntry k v) := by
        refine map_eq_of_forall₂ (forall₂_imp_of_mem hsame fun g hg f _ hgf => ?_)
        have hg := hes.2 g (hgs.mem_iff.2 hg)
        rw [encodeEntry, encodeEntry, encode_eq_of_same k g.1 f.1 hg.1 hgf.1,
          encode_eq_of_same v g.2 f.2 hg.2 hgf.2]
      rw [encode_map, encode_map, ← heq, Value.ofEntries, Value.ofEntries,
        Entries.collect_eq_of_perm hnodup (hgs.map (encodeEntry k v))]
  | .tuple ts, xs, ys, hxs, h => by
      rw [IsValue] at hxs
      rw [Same] at h
      rw [encode, encode, encodePack_eq_of_same ts xs ys hxs h]

theorem encodePack_eq_of_same : (ts : List Native) → (xs ys : Pack ts) → AreValues ts xs →
    SameFields ts xs ys → encodePack ts xs = encodePack ts ys
  | [], _, _, _, _ => rfl
  | t :: ts, (x, xs), (y, ys), hxs, h => by
      rw [AreValues] at hxs
      rw [SameFields] at h
      rw [encodePack, encodePack, encode_eq_of_same t x y hxs.1 h.1,
        encodePack_eq_of_same ts xs ys hxs.2 h.2]
end

/-! ## Listing in key order -/

mutual
/-- What is listed in key order holds no key twice. -/
theorem Canonical.isValue : {t : Native} → {x : t.Carrier} → t.Canonical x → t.IsValue x
  | .scalar _, _, _ => by
      rw [IsValue]
      trivial
  | .vector t, xs, h => by
      rw [Canonical] at h
      rw [IsValue]
      exact fun x hx => (h x hx).isValue
  | .map k v, es, h => by
      rw [Canonical] at h
      rw [IsValue]
      refine ⟨h.1.imp_of_mem fun {e f} he _ hlt hsame => ?_,
        fun e he => ⟨(h.2 e he).1.isValue, (h.2 e he).2.isValue⟩⟩
      -- a key below another one is not encoded as that one is
      have heq := encode_eq_of_same k e.1 f.1 (h.2 e he).1.isValue hsame
      change (k.encode e.1).compare (k.encode f.1) = .lt at hlt
      rw [heq, Value.compare_self] at hlt
      cases hlt
  | .tuple ts, xs, h => by
      rw [Canonical] at h
      rw [IsValue]
      exact h.areValues

theorem AllCanonical.areValues : {ts : List Native} → {xs : Pack ts} → AllCanonical ts xs →
    AreValues ts xs
  | [], _, _ => by
      rw [AreValues]
      trivial
  | t :: ts, (x, xs), h => by
      rw [AllCanonical] at h
      rw [AreValues]
      exact ⟨h.1.isValue, h.2.areValues⟩
end

mutual
/-- Of the listings of one value only one is in key order. -/
theorem eq_of_encode_eq : (t : Native) → (x y : t.Carrier) → t.Canonical x → t.Canonical y →
    t.encode x = t.encode y → x = y
  | .scalar s, x, y, _, _, h => by
      rw [encode, encode] at h
      cases h
      rfl
  | .vector t, xs, ys, hxs, hys, h => by
      rw [Canonical] at hxs hys
      rw [encode, encode, Value.vector.injEq] at h
      have heq := forall₂_imp_of_mem (forall₂_of_map_eq h) fun x hx y hy =>
        eq_of_encode_eq t x y (hxs x hx) (hys y hy)
      rwa [List.forall₂_eq_eq_eq] at heq
  | .map k v, es, fs, hes, hfs, h => by
      rw [Canonical] at hes hfs
      -- both are in the order of their encodings, so collecting leaves both as they stand
      rw [encode_map, encode_map, Value.ofEntries, Value.ofEntries, Value.map.injEq,
        Entries.collect_eq_self (sorted_order_iff.1 hes.1),
        Entries.collect_eq_self (sorted_order_iff.1 hfs.1)] at h
      have heq := forall₂_imp_of_mem (S := Eq) (forall₂_of_map_eq h) fun e he f hf hef => by
        have he := hes.2 e he
        have hf := hfs.2 f hf
        exact Prod.ext (eq_of_encode_eq k e.1 f.1 he.1 hf.1 (congrArg Prod.fst hef))
          (eq_of_encode_eq v e.2 f.2 he.2 hf.2 (congrArg Prod.snd hef))
      rwa [List.forall₂_eq_eq_eq] at heq
  | .tuple ts, xs, ys, hxs, hys, h => by
      rw [Canonical] at hxs hys
      rw [encode, encode, Value.tuple.injEq] at h
      exact eq_of_encodePack_eq ts xs ys hxs hys h

theorem eq_of_encodePack_eq : (ts : List Native) → (xs ys : Pack ts) → AllCanonical ts xs →
    AllCanonical ts ys → encodePack ts xs = encodePack ts ys → xs = ys
  | [], _, _, _, _, _ => rfl
  | t :: ts, (x, xs), (y, ys), hxs, hys, h => by
      rw [AllCanonical] at hxs hys
      rw [encodePack, encodePack, List.cons.injEq] at h
      exact Prod.ext (eq_of_encode_eq t x y hxs.1 hys.1 h.1)
        (eq_of_encodePack_eq ts xs ys hxs.2 hys.2 h.2)
end

/-! ## The bijection -/

/-- **Encoding and decoding undo each other.** A native value has a well-formed encoding of the shape
of its type, and decoding it gives the same value, listed in key order; a value that was listed so
comes back as it was. A value can be decoded if and only if it has the shape, and the result encodes
to it again, in whatever order its maps are listed. -/
theorem encode_decode_bijection (t : Native) :
    (∀ x, t.IsValue x → (t.encode x).WellFormed ∧ (t.encode x).matches? t.shape = true ∧
      ∃ y, t.decode (t.encode x) = .ok y ∧ t.Same x y ∧ t.Canonical y ∧
        (t.Canonical x → y = x)) ∧
    ∀ v : Value, v.WellFormed → ((∃ x, t.decode v = .ok x) ↔ v.matches? t.shape = true) ∧
      ∀ x, t.decode v = .ok x → t.encode x = v ∧ t.IsValue x ∧ t.Canonical x ∧
        ∀ y, t.Same x y → t.encode y = v := by
  refine ⟨fun x hx => ?_, fun v hv => ⟨exists_decode_iff t v, fun x hdec => ?_⟩⟩
  · have hwell := wellFormed_encode t x
    have hshape := matches_encode t x
    obtain ⟨y, hdec⟩ := (exists_decode_iff t (t.encode x)).2 hshape
    obtain ⟨henc, hy⟩ := encode_of_decode t _ y hwell hdec
    exact ⟨hwell, hshape, y, hdec, same_of_encode_eq t x y hx hy.isValue henc.symm, hy,
      fun hcan => eq_of_encode_eq t y x hy hcan henc⟩
  · obtain ⟨henc, hx⟩ := encode_of_decode t v x hv hdec
    exact ⟨henc, hx.isValue, hx, fun y hsame =>
      (encode_eq_of_same t x y hx.isValue hsame).symm.trans henc⟩

/-- A map from names with numbers to doubles with objects. -/
def readings : Native :=
  .map (.tuple [.scalar .string, .vector (.scalar .int32)])
    (.tuple [.scalar .double, .scalar .object])

/-- Two entries, the later key first: a NaN with a payload, and the zero below zero. -/
def twoReadings : readings.Carrier :=
  [(("b", [1, 2], ()), (0x7FF8000000000001, 7, ())), (("a", [], ()), (0x8000000000000000, 9, ()))]

theorem encode_decode_two_readings :
    readings.IsValue twoReadings ∧ ¬readings.Canonical twoReadings ∧
      (readings.encode twoReadings).WellFormed ∧
      readings.decode (readings.encode twoReadings) = .ok twoReadings.reverse ∧
      readings.Same twoReadings twoReadings.reverse ∧
      readings.encode twoReadings.reverse = readings.encode twoReadings := by
  have hvalue : readings.IsValue twoReadings := by
    simp [readings, twoReadings]
  have hdec : readings.decode (readings.encode twoReadings) = .ok twoReadings.reverse := rfl
  obtain ⟨hwell, -, y, hdec', hsame, hcan, hback⟩ := (encode_decode_bijection readings).1 _ hvalue
  rw [hdec] at hdec'
  cases hdec'
  have henc := (((encode_decode_bijection readings).2 _ hwell).2 _ hdec).1
  have hne : twoReadings.reverse ≠ twoReadings := by simp [twoReadings]
  exact ⟨hvalue, fun h => hne (hback h), hwell, hdec, hsame, henc⟩

end Native

end ObjectBus
