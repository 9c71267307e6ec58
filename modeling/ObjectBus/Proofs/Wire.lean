import ObjectBus.Proofs.Address
import ObjectBus.Proofs.Registry
import ObjectBus.Proofs.Value.Exchange

/-!
# Objects across a transport

An object leaves a transport as the text of an address where it is managed, and comes back from the
object that is managed there. That it is the same object is an invariant of the transport: objects
are managed only at addresses that were read from a text, so writing such an address and reading it
again gives the address, and the list of the managed objects holds no address twice.

The invariant is kept by everything that can be done to a transport (`Loopback.Step`), so it holds in
all its states (`Loopback.Reachable`).
-/

set_option autoImplicit false

namespace ObjectBus.Loopback

/-- **What can be done to a transport.** The addresses that it is given are read from texts. -/
inductive Step : Loopback → Loopback → Prop
  | switch (l : Loopback) (running : Bool) : Step l { l with running }
  | register {l l' : Loopback} {isLive : NodeId → Bool} {text name : String} {a : Address}
      {node : Option NodeId} (ha : Address.parse text = .ok a)
      (h : l.register isLive a node name = .ok l') : Step l l'
  | unregister (l : Loopback) {text : String} {a : Address} (name : String)
      (ha : Address.parse text = .ok a) : Step l (l.unregister a name).2
  | manage (l : Loopback) {text : String} {a : Address} (object : Option ObjectId)
      (ha : Address.parse text = .ok a) : Step l (l.setManaged a object)
  | subscribe (l : Loopback) (id : Nat) : Step l (l.subscribe id)
  | unsubscribe (l : Loopback) (id : Nat) : Step l (l.unsubscribe id)
  | clearInbox (l : Loopback) (id : Nat) : Step l (l.clearInbox id)
  | emit {l l' : Loopback} {address interface signal : String} {args : List Value}
      {argsType : Shape} (h : l.emit address interface signal args argsType = .ok l') : Step l l'

/-- **The states of a transport**: made from settings, and whatever was done to it since. -/
inductive Reachable : Loopback → Prop
  | make {c : Settings} {l : Loopback} (h : Loopback.make c = .ok l) : Reachable l
  | step {l l' : Loopback} (hl : Reachable l) (h : Step l l') : Reachable l'

/-- **Objects are managed at proper addresses**, in address order. -/
structure Addressed (l : Loopback) : Prop where
  sorted : Entries.Sorted l.managed
  proper : ∀ e ∈ l.managed, e.1.Proper

theorem Addressed.of_managed_eq {l l' : Loopback} (hl : l.Addressed)
    (h : l'.managed = l.managed) : l'.Addressed :=
  ⟨h ▸ hl.sorted, h ▸ hl.proper⟩

theorem Addressed.setManaged {l : Loopback} (hl : l.Addressed) {a : Address} (ha : a.Proper)
    (o : Option ObjectId) : (l.setManaged a o).Addressed := by
  cases o with
  | none =>
      exact ⟨Entries.sorted_drop hl.sorted a,
        fun e he => hl.proper e ((Entries.drop_sublist a l.managed).subset he)⟩
  | some o =>
      refine ⟨Entries.sorted_put hl.sorted a o, fun e he => ?_⟩
      rcases Entries.mem_put he with rfl | he
      · exact ha
      · exact hl.proper e he

/-- **Whatever is done to a transport keeps the addresses proper.** -/
theorem Step.addressed {l l' : Loopback} (h : Step l l') (hl : l.Addressed) : l'.Addressed := by
  cases h with
  | switch => exact hl.of_managed_eq rfl
  | register _ h => exact hl.of_managed_eq (managed_register h)
  | unregister => exact hl.of_managed_eq (managed_unregister _ _)
  | manage o ha => exact hl.setManaged (Address.proper_of_parse ha) o
  | subscribe => exact hl.of_managed_eq rfl
  | unsubscribe => exact hl.of_managed_eq rfl
  | clearInbox => exact hl.of_managed_eq rfl
  | emit h => exact hl.of_managed_eq (kept_emit h).2.2

theorem Reachable.addressed {l : Loopback} (hl : l.Reachable) : l.Addressed := by
  induction hl with
  | make h =>
      obtain ⟨-, -, hmanaged⟩ := make_orderly h false
      exact ⟨hmanaged ▸ Entries.sorted_nil, by simp [hmanaged]⟩
  | step _ h ih => exact h.addressed ih

/-! ## From the object to its address and back -/

section Addresses

variable {l : Loopback} (hl : l.Addressed) {isLive : ObjectId → Bool} {o : ObjectId}
  (hlive : isLive o = true)

include hl hlive

/-- **At the address of an object there is the object.** -/
theorem managedAt?_of_addressOf? {address : String} (h : l.addressOf? o = some address) :
    l.managedAt? isLive address = some o := by
  obtain ⟨e, he, rfl⟩ := Option.map_eq_some_iff.1 h
  have hmem := List.mem_of_find?_eq_some he
  obtain rfl : e.2 = o := by simpa using List.find?_some he
  -- the text leads back to the entry that it was written for
  have hget : Entries.get? e.1 l.managed = some e.2 := Entries.get?_of_mem hl.sorted hmem
  simp [managedAt?, Address.parse_render (hl.proper e hmem), hget, hlive]

/-- An object has an address if and only if it is found at some address. -/
theorem addressOf?_isSome_iff :
    (l.addressOf? o).isSome = true ↔ ∃ address, l.managedAt? isLive address = some o := by
  constructor
  · intro h
    obtain ⟨address, haddress⟩ := Option.isSome_iff_exists.1 h
    exact ⟨address, managedAt?_of_addressOf? hl hlive haddress⟩
  · rintro ⟨address, h⟩
    unfold managedAt? at h
    cases ha : Address.parse address with
    | error e => rw [ha] at h; cases h
    | ok a =>
        rw [ha] at h
        have hget := (Option.filter_eq_some_iff.1 h).1
        rw [addressOf?, Option.isSome_map, List.find?_isSome]
        exact ⟨(a, o), Entries.mem_of_get? hget, by simp⟩

end Addresses

/-! ## The round trip -/

/-- A value whose objects are alive comes back from every state of a transport. -/
theorem Reachable.returns {l : Loopback} (hl : l.Reachable) {isLive : ObjectId → Bool} {v : Value}
    {t : Shape} (hwell : v.WellFormed) (ht : v.matches? t = true)
    (hlive : ∀ o ∈ v.objects, isLive o = true) :
    v.Returns l.addressOf? (l.managedAt? isLive) t :=
  ⟨hwell, ht, fun o ho _ => managedAt?_of_addressOf? hl.addressed (hlive o ho)⟩

/-- Exporting fails if and only if an object is found nowhere. -/
theorem exportValue_error_iff {l : Loopback} (hl : l.Addressed) {isLive : ObjectId → Bool}
    {v : Value} (hlive : ∀ o ∈ v.objects, isLive o = true) :
    (∃ e, l.exportValue v = .error e) ↔
      ∃ o ∈ v.objects, ∀ address, l.managedAt? isLive address ≠ some o :=
  calc (∃ e, l.exportValue v = .error e)
      ↔ ¬∃ w, v.exported l.addressOf? = .ok w := by
        unfold exportValue
        cases v.exported l.addressOf? <;> simp
    _ ↔ ∃ o ∈ v.objects, ¬(l.addressOf? o).isSome = true := by
        rw [Value.exists_exported_iff]
        simp
    _ ↔ ∃ o ∈ v.objects, ∀ address, l.managedAt? isLive address ≠ some o :=
        exists_congr fun o => and_congr_right fun ho => by
          rw [addressOf?_isSome_iff hl (hlive o ho), not_exists]

/-- **Objects survive the wire.** In every state of a transport, a value of a shape can be exported
unless one of its objects is managed nowhere. What leaves holds no object, has the shape with paths
for objects and keeps the form of the value at every depth; it comes back as the value that left,
and no other value of that shape leaves as the same. -/
theorem objects_survive_the_wire {l : Loopback} (hl : l.Reachable) (isLive : ObjectId → Bool)
    {v : Value} {t : Shape} (hwell : v.WellFormed) (ht : v.matches? t = true)
    (hlive : ∀ o ∈ v.objects, isLive o = true) :
    ((∃ e, l.exportValue v = .error e) ↔
      ∃ o ∈ v.objects, ∀ address, l.managedAt? isLive address ≠ some o) ∧
    ∀ w, l.exportValue v = .ok w →
      w.objects = [] ∧ w.WellFormed ∧ w.matches? t.withPaths = true ∧ v.Mirrors l.addressOf? w ∧
      l.importValue isLive w t = .ok v ∧
      ∀ v', v'.WellFormed → v'.matches? t = true → (∀ o ∈ v'.objects, isLive o = true) →
        l.exportValue v' = .ok w → v' = v := by
  have hreturns := hl.returns hwell ht hlive
  refine ⟨exportValue_error_iff hl.addressed hlive, fun w hw => ?_⟩
  have hback : l.importValue isLive w t = .ok v := Value.imported_of_exported hreturns hw
  refine ⟨Value.objects_of_exported hw, Value.wellFormed_of_exported hw,
    Value.matches_of_exported ht hw, Value.mirrors_of_exported hreturns hw, hback, ?_⟩
  intro v' hwell' ht' hlive' hw'
  have hback' : l.importValue isLive w t = .ok v' :=
    Value.imported_of_exported (hl.returns hwell' ht' hlive') hw'
  rw [hback] at hback'
  exact (Except.ok.inj hback').symm

/-- A transport that manages two objects, one of them at two addresses. -/
def twoManaged : Loopback :=
  { name := "local", root := "/", managed := [(⟨["a"]⟩, 9), (⟨["b"]⟩, 7), (⟨["z"]⟩, 7)] }

theorem reachable_twoManaged : twoManaged.Reachable := by
  have hmake : Loopback.make {} = .ok { name := "local", root := "/" } := rfl
  have hz : Address.parse "/z" = .ok ⟨["z"]⟩ := rfl
  have hb : Address.parse "/b" = .ok ⟨["b"]⟩ := rfl
  have ha : Address.parse "/a" = .ok ⟨["a"]⟩ := rfl
  exact (((Reachable.make hmake).step (.manage _ (some 7) hz)).step (.manage _ (some 7) hb)).step
    (.manage _ (some 9) ha)

/-- The objects are the keys of a map, and its entries change places. -/
theorem objects_survive_as_keys :
    let v : Value := .map [(.scalar .object 7, .vector [.scalar .object 9]),
      (.scalar .object 9, .vector [])]
    let w : Value := .map [(.scalar .path "/a", .vector []),
      (.scalar .path "/b", .vector [.scalar .path "/a"])]
    let t : Shape := .map (.scalar .object) (.vector (.scalar .object))
    v.WellFormed ∧ v.matches? t = true ∧ twoManaged.exportValue v = .ok w ∧
      w.matches? t.withPaths = true ∧ twoManaged.importValue (fun _ => true) w t = .ok v := by
  intro v w t
  have hexport : twoManaged.exportValue v = .ok w := rfl
  have hwell : v.WellFormed := by
    refine ⟨List.pairwise_pair.2 rfl, ?_⟩
    simp [Value.EntriesWellFormed, Value.AllWellFormed, Value.WellFormed]
  obtain ⟨-, hsurvive⟩ := objects_survive_the_wire reachable_twoManaged (fun _ => true)
    (v := v) (t := t) hwell rfl fun _ _ => rfl
  obtain ⟨-, -, hshape, -, himport, -⟩ := hsurvive w hexport
  exact ⟨hwell, rfl, hexport, hshape, himport⟩

end ObjectBus.Loopback
