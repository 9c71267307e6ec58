import ObjectBus.Proofs.Value.Resolution
import ObjectBus.Proofs.Wire

/-!
# What a transport loses on the way in

A transport looks a path up as an address: repeated and trailing slashes do not matter, and one object
may be managed at several addresses. So there are different paths to one object, and a map whose keys
are objects comes in without the entries whose keys meet another key, also if what these hold is not of
the declared shape (`importing_loses_where_keys_meet`). Everything comes in, and would leave as it
came, if the paths are written as the transport writes them and no object is managed twice.
-/

set_option autoImplicit false

namespace ObjectBus.Loopback

/-- **Every object is managed at one address at most.** -/
def ManagedOnce (l : Loopback) : Prop :=
  ∀ e ∈ l.managed, ∀ f ∈ l.managed, e.2 = f.2 → e.1 = f.1

/-- **The paths that are looked up are written as a transport writes them.** -/
def AsksPlainly (v : Value) (t : Shape) : Prop :=
  ∀ p, v.Asks t p → ∃ a, Address.parse p = .ok a ∧ a.render = p

/-- A path that is written as the transport writes it is the address of what is found there. -/
theorem ManagedOnce.addressOf?_eq {l : Loopback} (hl : l.ManagedOnce) {isLive : ObjectId → Bool}
    {a : Address} {o : ObjectId} (ha : a.Proper) (h : l.managedAt? isLive a.render = some o) :
    l.addressOf? o = some a.render := by
  rw [managedAt?, Address.parse_render ha] at h
  have hmem := Entries.mem_of_get? (Option.filter_eq_some_iff.1 h).1
  cases hfind : l.managed.find? fun e => e.2 == o with
  | none => exact absurd (List.find?_eq_none.1 hfind _ hmem) (by simp)
  | some e =>
      have heq : e.2 = o := by simpa using List.find?_some hfind
      have haddress : e.1 = a := hl e (List.mem_of_find?_eq_some hfind) _ hmem heq
      rw [addressOf?, hfind, Option.map_some, haddress]

/-- **Importing loses something if and only if keys meet.** In every state of a transport, a value
that is imported for a shape has the same form as before, at every depth, if and only if no keys of a
map in it, that differ, are imported as the same key; otherwise it comes in with fewer entries. No keys
meet where the declared keys hold no objects. If keys meet in a value without objects, then there are
different paths in it that lead to one object. If its paths are written as the transport writes them,
and every object is managed at one address at most, then it comes in whole, and leaves as it came. The
same holds of arguments, those beyond the declared shapes included. -/
theorem importing_loses_where_keys_meet (l : Loopback) (isLive : ObjectId → Bool) :
    (∀ (v w : Value) (t : Shape), v.WellFormed → l.importValue isLive v t = .ok w →
      (v.Restored (l.managedAt? isLive) w ↔ ¬v.KeysMeet (l.managedAt? isLive) t) ∧
      (v.KeysMeet (l.managedAt? isLive) t ↔ w.size < v.size) ∧
      ((∀ k u, (Shape.map k u).PartOf t → ¬(Shape.scalar .object).PartOf k) →
        v.Restored (l.managedAt? isLive) w) ∧
      (v.objects = [] → v.KeysMeet (l.managedAt? isLive) t →
        ∃ p q, v.Asks t p ∧ v.Asks t q ∧ p ≠ q ∧
          l.managedAt? isLive p = l.managedAt? isLive q) ∧
      (v.objects = [] → l.ManagedOnce → AsksPlainly v t →
        v.Restored (l.managedAt? isLive) w ∧ l.exportValue w = .ok v)) ∧
    (∀ (vs ws : List Value) (ts : List Shape), (∀ v ∈ vs, v.WellFormed) →
      l.importValues isLive vs ts = .ok ws →
      (List.Forall₂ (Value.Restored (l.managedAt? isLive)) vs ws ↔
        ∀ e ∈ vs.zip ts, ¬e.1.KeysMeet (l.managedAt? isLive) e.2)) := by
  refine ⟨fun v w t hv h => ⟨Value.restored_iff hv h, Value.keysMeet_iff_size_lt hv h,
      fun hplain => ?_, ?_, ?_⟩, fun vs ws ts hvs h => Value.restored_fields_iff hvs h⟩
  · exact (Value.restored_iff hv h).2 (Value.not_keysMeet_of_plain hv hplain)
  · intro hobjects hmeet
    by_contra hnone
    refine (Value.restored_iff hv h).1 (Value.restored_of_injective hv hobjects ?_ h) hmeet
    intro p q hp hq heq
    by_contra hne
    exact hnone ⟨p, q, hp, hq, hne, heq⟩
  · intro hobjects honce hplain
    have hback : l.exportValue w = .ok v := by
      refine Value.exported_of_imported hv hobjects (fun p o hp ho => ?_) h
      obtain ⟨a, ha, rfl⟩ := hplain p hp
      exact honce.addressOf?_eq (Address.proper_of_parse ha) ho
    exact ⟨Value.restored_of_exported hv h hback, hback⟩

/-- A transport that manages two objects at one address each. -/
def twoPlaces : Loopback :=
  { name := "local", root := "/", managed := [(⟨["a"]⟩, 9), (⟨["b"]⟩, 7)] }

/-- Two keys lead to two objects, and all comes in; two ways to write one address lead to one object,
and a number that was sent where a text was to stand is not seen. -/
theorem importing_loses_under_one_address :
    let t : Shape := .map (.scalar .object) (.scalar .string)
    let apart : Value :=
      .map [(.scalar .path "/a", .scalar .string "x"), (.scalar .path "/b", .scalar .string "y")]
    let meeting : Value :=
      .map [(.scalar .path "/b", .scalar .int32 5), (.scalar .path "/b/", .scalar .string "y")]
    let one : Value := .map [(.scalar .object 7, .scalar .string "y")]
    (∃ w, twoPlaces.importValue (fun _ => true) apart t = .ok w ∧
      apart.Restored (twoPlaces.managedAt? fun _ => true) w ∧
      twoPlaces.exportValue w = .ok apart) ∧
    meeting.matches? t.withPaths = false ∧
    twoPlaces.importValue (fun _ => true) meeting t = .ok one ∧ one.matches? t = true ∧
    ¬meeting.Restored (twoPlaces.managedAt? fun _ => true) one := by
  intro t apart meeting one
  obtain ⟨hvalues, -⟩ := importing_loses_where_keys_meet twoPlaces fun _ => true
  have hwell : apart.WellFormed ∧ meeting.WellFormed := by
    refine ⟨⟨List.pairwise_pair.2 rfl, ?_⟩, ⟨List.pairwise_pair.2 rfl, ?_⟩⟩ <;>
      simp [Value.EntriesWellFormed, Value.WellFormed]
  have honce : twoPlaces.ManagedOnce := by
    simp [ManagedOnce, twoPlaces]
  have hplain : AsksPlainly apart t := by
    intro p hp
    change Value.Asks (.map _) (.map _ _) p at hp
    cases hp with
    | key he hp =>
        obtain ⟨rfl, rfl⟩ | ⟨rfl, rfl⟩ := by simpa using he
        · cases hp
          exact ⟨⟨["a"]⟩, rfl, rfl⟩
        · cases hp
          exact ⟨⟨["b"]⟩, rfl, rfl⟩
    | value he hp => cases hp
  have hapart : twoPlaces.importValue (fun _ => true) apart t = .ok (.map
    [(.scalar .object 7, .scalar .string "y"), (.scalar .object 9, .scalar .string "x")]) := rfl
  have hmeeting : twoPlaces.importValue (fun _ => true) meeting t = .ok one := rfl
  obtain ⟨-, -, -, -, hwhole⟩ := hvalues apart _ t hwell.1 hapart
  obtain ⟨hkept, hback⟩ := hwhole rfl honce hplain
  obtain ⟨hform, -⟩ := hvalues meeting one t hwell.2 hmeeting
  refine ⟨⟨_, hapart, hkept, hback⟩, rfl, hmeeting, rfl, fun hrestored => hform.1 hrestored ?_⟩
  exact .here (e := (.scalar .path "/b", .scalar .int32 5))
    (f := (.scalar .path "/b/", .scalar .string "y")) List.mem_cons_self (by simp) (by simp) rfl

end ObjectBus.Loopback
