import ObjectBus.Proofs.Dispatch
import ObjectBus.Proofs.Interface.Order

/-!
# Reading all properties at once

Reading one property from afar and reading all of them go different ways: the one looks a property up
and complains if it may not be read, the other walks the table of the interface and passes over what
may not be read. Both then read the storage and export the value (`Bus.readOut`), so that the walk does
to each readable property what a single request for it would do (`Bus.readAll_eq_mapM`,
`Bus.remoteGet_eq_readOut`).

The walk ends at the first property that fails. The first one in the table is the first one in name
order, because tables are in name order (`Bus.InOrder`), in every state of every session
(`Session.inOrder_busAfter`).
-/

set_option autoImplicit false

namespace ObjectBus

namespace Interface

/-- A property of this name is there and may be read. -/
def Reads (x : Interface) (name : String) : Prop :=
  ∃ p, Entries.get? name x.properties = some p ∧ p.permissions.readable = true

/-- The properties that may be read, as they stand in the table. -/
def readable (x : Interface) : Entries String Property :=
  x.properties.filter fun e => e.2.permissions.readable

variable {x : Interface} {name : String}

theorem property_eq_ok_iff {p : Property} :
    x.property name = .ok p ↔ Entries.get? name x.properties = some p := by
  unfold property
  cases Entries.get? name x.properties <;> simp

theorem InOrder.sorted_readable (h : x.InOrder) : Entries.Sorted x.readable :=
  List.Pairwise.sublist List.filter_sublist h

/-- The names in the filtered table are those of the readable properties. -/
theorem InOrder.mem_readable_iff (h : x.InOrder) {p : Property} :
    (name, p) ∈ x.readable ↔
      Entries.get? name x.properties = some p ∧ p.permissions.readable = true := by
  rw [readable, List.mem_filter]
  exact and_congr_left' ⟨Entries.get?_of_mem h, Entries.mem_of_get?⟩

theorem InOrder.mem_keys_readable_iff (h : x.InOrder) :
    name ∈ Entries.keys x.readable ↔ x.Reads name := by
  rw [Entries.keys, List.mem_map]
  constructor
  · rintro ⟨⟨_, p⟩, he, rfl⟩
    exact ⟨p, h.mem_readable_iff.1 he⟩
  · rintro ⟨p, hp⟩
    exact ⟨(name, p), h.mem_readable_iff.2 hp, rfl⟩

end Interface

namespace Bus

/-! ## One reading and all readings -/

/-- **What is read of a property from afar**: its storage is read and the value is exported. -/
def readOut (b : Bus) (l : Loopback) (p : Property) : Except Fault Value :=
  match b.readProperty p with
  | .error e => .error e.toFault
  | .ok v => l.exportValue v

/-- **Everything that may be read, and nothing else**, in name order and as single requests give it. -/
structure ReadsAll (b : Bus) (l : Loopback) (address interface : String) (x : Interface)
    (vs : List (String × Value)) : Prop where
  sorted : Entries.Sorted vs
  names : ∀ name, name ∈ Entries.keys vs ↔ x.Reads name
  each : ∀ e ∈ vs, b.remoteGet l address interface e.1 = .ok e.2

/-- **The first that cannot be read**, in name order, of those that may be read. -/
structure FailsFirst (b : Bus) (l : Loopback) (address interface : String) (x : Interface)
    (name : String) (fault : Fault) : Prop where
  reads : x.Reads name
  fails : b.remoteGet l address interface name = .error fault
  before : ∀ k, x.Reads k → compare k name = .lt →
    ∃ v, b.remoteGet l address interface k = .ok v

variable {b : Bus} {l : Loopback} {address interface : String} {i : InterfaceId} {x : Interface}

theorem ReadsAll.unique {vs ws : List (String × Value)} (hvs : b.ReadsAll l address interface x vs)
    (hws : b.ReadsAll l address interface x ws) : vs = ws := by
  have hsub : ∀ {us us' : List (String × Value)}, b.ReadsAll l address interface x us →
      b.ReadsAll l address interface x us' → ∀ k v, Entries.get? k us = some v →
        Entries.get? k us' = some v := by
    intro us us' hus hus' k v hv
    have hk := (hus.names k).1 (Entries.mem_keys_iff.2 ⟨v, hv⟩)
    obtain ⟨w, hw⟩ := Entries.mem_keys_iff.1 ((hus'.names k).2 hk)
    have heq := hus'.each _ (Entries.mem_of_get? hw)
    rw [hus.each _ (Entries.mem_of_get? hv)] at heq
    cases heq
    exact hw
  refine Entries.eq_of_get? hvs.sorted hws.sorted fun k => Option.ext fun v => ?_
  exact ⟨hsub hvs hws k v, hsub hws hvs k v⟩

theorem FailsFirst.unique {name name' : String} {fault fault' : Fault}
    (h : b.FailsFirst l address interface x name fault)
    (h' : b.FailsFirst l address interface x name' fault') : fault = fault' := by
  have hnot : ∀ {k k' : String} {e e' : Fault}, b.FailsFirst l address interface x k e →
      b.FailsFirst l address interface x k' e' → compare k k' ≠ .lt := by
    intro k k' e e' hk hk' hlt
    obtain ⟨v, hv⟩ := hk'.before k hk.reads hlt
    rw [hk.fails] at hv
    cases hv
  cases hcompare : compare name name' with
  | lt => exact absurd hcompare (hnot h h')
  | gt => exact absurd (Std.OrientedCmp.lt_of_gt hcompare) (hnot h' h)
  | eq =>
      obtain rfl := Std.LawfulEqOrd.eq_of_compare hcompare
      have hfails := h.fails
      rw [h'.fails] at hfails
      cases hfails
      rfl

/-- The walk through a table does one thing to each property that may be read. -/
theorem readAll_eq_mapM (b : Bus) (l : Loopback) (ps : List (String × Property)) :
    b.readAll l ps = (ps.filter fun e => e.2.permissions.readable).mapM fun e =>
      (b.readOut l e.2).map (e.1, ·) := by
  induction ps with
  | nil => rfl
  | cons e ps ih =>
      obtain ⟨name, p⟩ := e
      cases hp : p.permissions.readable with
      | false => simp only [readAll, hp, List.filter_cons, Bool.false_eq_true, if_false, ih]
      | true =>
          simp only [readAll, hp, List.filter_cons, if_true, List.mapM_cons, readOut, ih]
          cases b.readProperty p with
          | error e => rfl
          | ok v =>
              dsimp only
              cases l.exportValue v with
              | error e => rfl
              | ok w => rfl

/-- A single request for a property does the same thing to it. -/
theorem remoteGet_eq_readOut {name : String} {p : Property}
    (hresolve : b.resolve l address interface = .ok (i, x))
    (hp : Entries.get? name x.properties = some p) :
    b.remoteGet l address interface name = b.readOut l p := by
  simp only [remoteGet, hresolve, Interface.property_eq_ok_iff.2 hp]
  rfl

/-- All properties are asked for, once the request has arrived. -/
theorem remoteGetAll_eq_mapM (hresolve : b.resolve l address interface = .ok (i, x)) :
    b.remoteGetAll l address interface =
      x.readable.mapM fun e => (b.readOut l e.2).map (e.1, ·) := by
  simp only [remoteGetAll, hresolve, readAll_eq_mapM, Interface.readable]

section Agreement

variable (hresolve : b.resolve l address interface = .ok (i, x)) (hx : x.InOrder)

include hresolve hx

/-- An entry of the walk is an answer to a single request. -/
theorem readOut_of_mem {e : String × Property} (he : e ∈ x.readable) :
    b.remoteGet l address interface e.1 = b.readOut l e.2 :=
  remoteGet_eq_readOut hresolve (hx.mem_readable_iff.1 he).1

/-- All properties are read if and only if each of those that may be read is. -/
theorem exists_remoteGetAll_iff :
    (∃ vs, b.remoteGetAll l address interface = .ok vs) ↔
      ∀ name, x.Reads name → ∃ v, b.remoteGet l address interface name = .ok v := by
  simp only [remoteGetAll_eq_mapM hresolve, mapM_eq_ok_iff]
  rw [exists_forall₂_iff]
  constructor
  · rintro hall name ⟨p, hp⟩
    obtain ⟨d, hd⟩ := hall (name, p) (hx.mem_readable_iff.2 hp)
    obtain ⟨v, hv, -⟩ := map_eq_ok_iff.1 hd
    exact ⟨v, (remoteGet_eq_readOut hresolve hp.1).trans hv⟩
  · intro hall e he
    obtain ⟨v, hv⟩ := hall e.1 ⟨e.2, hx.mem_readable_iff.1 he⟩
    rw [readOut_of_mem hresolve hx he] at hv
    exact ⟨(e.1, v), map_eq_ok_iff.2 ⟨v, hv, rfl⟩⟩

/-- What is read is everything that may be read, as single requests give it. -/
theorem readsAll_of_remoteGetAll {vs : List (String × Value)}
    (h : b.remoteGetAll l address interface = .ok vs) : b.ReadsAll l address interface x vs := by
  rw [remoteGetAll_eq_mapM hresolve, mapM_eq_ok_iff] at h
  have hkeys : Entries.keys x.readable = Entries.keys vs :=
    map_eq_of_forall₂ <| h.imp fun e d hd => by
      obtain ⟨v, -, rfl⟩ := map_eq_ok_iff.1 hd
      rfl
  refine ⟨?_, fun name => ?_, fun d hd => ?_⟩
  · rw [Entries.sorted_iff_keys, ← hkeys]
    exact Entries.sorted_iff_keys.1 hx.sorted_readable
  · rw [← hkeys]
    exact hx.mem_keys_readable_iff
  · obtain ⟨e, he, hed⟩ := exists_left_of_forall₂ h hd
    obtain ⟨v, hv, rfl⟩ := map_eq_ok_iff.1 hed
    exact (readOut_of_mem hresolve hx he).trans hv

/-- Nothing else is read. -/
theorem remoteGetAll_eq_ok_iff {vs : List (String × Value)} :
    b.remoteGetAll l address interface = .ok vs ↔ b.ReadsAll l address interface x vs := by
  refine ⟨readsAll_of_remoteGetAll hresolve hx, fun hvs => ?_⟩
  obtain ⟨ws, hws⟩ := (exists_remoteGetAll_iff hresolve hx).2 fun name hname => by
    obtain ⟨v, hv⟩ := Entries.mem_keys_iff.1 ((hvs.names name).2 hname)
    exact ⟨v, hvs.each _ (Entries.mem_of_get? hv)⟩
  rw [hws, (readsAll_of_remoteGetAll hresolve hx hws).unique hvs]

/-- A walk that fails does so at the first that cannot be read. -/
theorem failsFirst_of_remoteGetAll {fault : Fault}
    (h : b.remoteGetAll l address interface = .error fault) :
    ∃ name, b.FailsFirst l address interface x name fault := by
  rw [remoteGetAll_eq_mapM hresolve] at h
  obtain ⟨k, e, he, hfault, hbefore⟩ := exists_first_of_mapM_eq_error h
  have hmem := List.mem_of_getElem? he
  refine ⟨e.1, ⟨e.2, hx.mem_readable_iff.1 hmem⟩,
    (readOut_of_mem hresolve hx hmem).trans (map_eq_error_iff.1 hfault), ?_⟩
  rintro name ⟨p, hp⟩ hlt
  obtain ⟨j, hj⟩ := List.mem_iff_getElem?.1 (hx.mem_readable_iff.2 hp)
  -- what is smaller stands further ahead
  have hjk : j < k := by
    by_contra hkj
    rcases Nat.lt_or_eq_of_le (Nat.le_of_not_lt hkj) with hkj | rfl
    · obtain ⟨hk, rfl⟩ := List.getElem?_eq_some_iff.1 he
      obtain ⟨hj, hp⟩ := List.getElem?_eq_some_iff.1 hj
      have hgt := List.pairwise_iff_getElem.1 hx.sorted_readable k j hk hj hkj
      rw [hp] at hgt
      rw [Std.OrientedCmp.gt_of_lt hgt] at hlt
      cases hlt
    · rw [he] at hj
      cases hj
      rw [Std.ReflOrd.compare_self] at hlt
      cases hlt
  obtain ⟨d, hd⟩ := hbefore j hjk _ hj
  obtain ⟨v, hv, -⟩ := map_eq_ok_iff.1 hd
  exact ⟨v, (remoteGet_eq_readOut hresolve hp.1).trans hv⟩

/-- What is complained of is the first that cannot be read, and nothing else. -/
theorem remoteGetAll_eq_error_iff {fault : Fault} :
    b.remoteGetAll l address interface = .error fault ↔
      ∃ name, b.FailsFirst l address interface x name fault := by
  refine ⟨failsFirst_of_remoteGetAll hresolve hx, fun ⟨name, hname⟩ => ?_⟩
  cases hall : b.remoteGetAll l address interface with
  | ok vs =>
      obtain ⟨v, hv⟩ := (exists_remoteGetAll_iff hresolve hx).1 ⟨vs, hall⟩ name hname.reads
      rw [hname.fails] at hv
      cases hv
  | error fault' =>
      obtain ⟨name', hname'⟩ := failsFirst_of_remoteGetAll hresolve hx hall
      rw [hname.unique hname']

end Agreement

/-- **All properties are read as one.** If a request does not arrive, whether one property is asked for
or all, the caller is told why, and on a stopped transport that it does not run. If it arrives, then all
are read exactly if each that may be read can be read by a request of its own. What is read are those
that may be read, each with the value that its own request gives; and the fault, if there is one, is the
one that is given for the first of them, in name order, that cannot be read. -/
theorem all_properties_read_as_one (b : Bus) (hb : b.InOrder) (l : Loopback)
    (address interface : String) :
    (∀ fault, b.resolve l address interface = .error fault →
      b.remoteGetAll l address interface = .error fault ∧
      ∀ name, b.remoteGet l address interface name = .error fault) ∧
    (l.running = false → b.resolve l address interface = .error .notRunning) ∧
    ∀ i x, b.resolve l address interface = .ok (i, x) →
      (∀ vs, b.remoteGetAll l address interface = .ok vs ↔
        b.ReadsAll l address interface x vs) ∧
      (∀ fault, b.remoteGetAll l address interface = .error fault ↔
        ∃ name, b.FailsFirst l address interface x name fault) ∧
      ((∃ vs, b.remoteGetAll l address interface = .ok vs) ↔
        ∀ name, x.Reads name → ∃ v, b.remoteGet l address interface name = .ok v) := by
  refine ⟨fun fault hfault => ?_, fun hstopped => ?_, fun i x hresolve => ?_⟩
  · simp only [remoteGetAll, remoteGet, hfault, implies_true, and_self]
  · simp only [resolve, Loopback.checkRunning, hstopped, Bool.false_eq_true, if_false]
  · obtain ⟨-, -, -, -, -, -, -, -, -, -, v, hv, rfl⟩ := resolve_eq_ok_iff.1 hresolve
    have hx := hb i v hv
    exact ⟨fun _ => remoteGetAll_eq_ok_iff hresolve hx,
      fun _ => remoteGetAll_eq_error_iff hresolve hx, exists_remoteGetAll_iff hresolve hx⟩

/-! ## A shelf with a locked drawer -/

/-- A property of the shelf. -/
def drawer (type : Native) (readable : Bool) (cell : CellId) (access : Access := .plain) : Property :=
  .overCell type { readable, writeable := true } cell access none

/-- Two properties that may be read, and one that may only be written. -/
def shelf : Interface where
  name := "I"
  properties := [("books", drawer (.scalar .uint32) true 5), ("lock", drawer (.scalar .uint32) false 5),
    ("title", drawer (.scalar .string) true 6)]

/-- A property that holds an object that is not managed, and one whose storage is gone. -/
def crowdedShelf : Interface where
  name := "I"
  properties := [("books", drawer (.scalar .uint32) true 5), ("guest", drawer (.scalar .object) true 7),
    ("void", drawer (.scalar .string) true 8 .weak)]

/-- The bus of the lamp, with another interface on its node. -/
def shelfBus (x : Interface) : Bus :=
  { lampBus with
    interfaces := [(4, { lampInstance with interface := x })]
    cells := [(5, .typed (.scalar .uint32) (.scalar .uint32 7)),
      (6, .typed (.scalar .string) (.scalar .string "Emma")),
      (7, .typed (.scalar .object) (.scalar .object 2))] }

theorem inOrder_shelfBus {x : Interface} (hx : x.InOrder) : (shelfBus x).InOrder := by
  intro i v hv
  obtain ⟨-, rfl⟩ : i = 4 ∧ { lampInstance with interface := x } = v := by
    simpa [interface?, shelfBus, Entries.get?_cons] using hv
  exact hx

/-- What may be read on the shelf is read. On the crowded one the guest is complained of and not the
property whose storage is gone, because it comes first. -/
theorem all_properties_read_as_one_on_the_shelf :
    (shelfBus shelf).InOrder ∧ (shelfBus crowdedShelf).InOrder ∧
      (shelfBus shelf).remoteGetAll lampTransport "/r" "I" =
        .ok [("books", .scalar .uint32 7), ("title", .scalar .string "Emma")] ∧
      (shelfBus crowdedShelf).remoteGetAll lampTransport "/r" "I" =
        .error (.failed "object is not managed by any node") := by
  have hshelf : shelf.InOrder := by
    unfold Interface.InOrder Entries.Sorted
    decide
  have hcrowded : crowdedShelf.InOrder := by
    unfold Interface.InOrder Entries.Sorted
    decide
  refine ⟨inOrder_shelfBus hshelf, inOrder_shelfBus hcrowded, ?_, ?_⟩
  · obtain ⟨-, -, harrived⟩ := all_properties_read_as_one (shelfBus shelf) (inOrder_shelfBus hshelf)
      lampTransport "/r" "I"
    refine ((harrived 4 shelf rfl).1 _).2 ⟨?_, fun name => hshelf.mem_keys_readable_iff, ?_⟩
    · exact List.pairwise_pair.2 rfl
    · rintro e he
      rcases List.mem_pair.1 he with rfl | rfl <;> rfl
  · obtain ⟨-, -, harrived⟩ := all_properties_read_as_one (shelfBus crowdedShelf)
      (inOrder_shelfBus hcrowded) lampTransport "/r" "I"
    refine ((harrived 4 crowdedShelf rfl).2.1 _).2 ⟨"guest", ⟨_, rfl, rfl⟩, rfl, fun k hk hlt => ?_⟩
    have hnames : Entries.keys crowdedShelf.readable = ["books", "guest", "void"] := rfl
    rw [← hcrowded.mem_keys_readable_iff, hnames] at hk
    -- of the three that may be read, only the books come before the guest
    obtain rfl | rfl | rfl : k = "books" ∨ k = "guest" ∨ k = "void" := by simpa using hk
    · exact ⟨_, rfl⟩
    · cases hlt
    · cases hlt

end Bus

end ObjectBus
