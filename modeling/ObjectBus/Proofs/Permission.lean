import ObjectBus.Proofs.Dispatch
import ObjectBus.Proofs.Storage

/-!
# Writing what may not be written

A property asks for its permission before it looks at the value. On the way from afar the value is
imported first, for the shape of the property, so a path in it that leads nowhere is complained of
before the property is asked. Whether a write is denied therefore depends on the value, but only on
its paths that stand where the shape has an object (`Bus.denied_unless_a_path_leads_nowhere`).

Nothing changes in either case. The interface value that is held meanwhile, and the value that is in
hand, are let go again (`Bus.remoteSet_of_denied`).
-/

set_option autoImplicit false

namespace ObjectBus

/-- **A property that may not be written**: its permissions do not say so, or it was made read-only. -/
inductive Property.IsProtected : Property → Prop
  | unpermitted {p : Property} (h : p.permissions.writeable = false) : IsProtected p
  | readOnly (type : Native) (permissions : Permissions) (cell : CellId)
      (hook : Option (String × List Command)) :
      IsProtected (.overCell type permissions cell .readOnly hook)

theorem Property.IsProtected.writeable {p : Property} (h : p.IsProtected) :
    p.permissions.writeable = false := by
  cases h with
  | unpermitted h => exact h
  | readOnly => rfl

namespace Bus

variable {b : Bus} {l : Loopback} {address interface name : String} {i : InterfaceId}
  {x : Interface} {p : Property} {v w : Value}

/-- What is taken in hand last is let go first. -/
theorem letGo_takeInHand (b : Bus) (vs : List Value) : (b.takeInHand vs).letGo vs.length = b := by
  rw [letGo, takeInHand, List.drop_left]

/-- **A property that may not be written does not look at the value**, and nothing changes. -/
theorem writeProperty_of_protected (h : Host) (hp : p.IsProtected) (v : Value) (b : Bus) :
    b.writeProperty h p v =
      (.error (.error (.permissionDenied "property is not writeable")), b) := by
  simp only [writeProperty, Property.write, hp.writeable, Bool.not_false, if_true]

/-- What is imported reaches the property, and is denied. -/
theorem remoteSet_of_imported (h : Host) (hresolve : b.resolve l address interface = .ok (i, x))
    (hproperty : x.property name = .ok p) (hp : p.IsProtected)
    (himport : l.importValue b.isLiveObject v p.shape = .ok w) :
    b.remoteSet h l address interface name v =
      (.error (.error (.accessDenied "property is not writeable")), b) := by
  obtain ⟨-, -, -, -, -, -, -, -, -, hlive, -⟩ := resolve_eq_ok_iff.1 hresolve
  have hback := letGo_takeInHand (b.holdInterface i) [w]
  simp only [List.length_singleton] at hback
  simp only [remoteSet, hresolve, hproperty, himport, writeProperty_of_protected h hp, hback,
    releaseInterface_holdInterface h hlive]
  rfl

/-- What is not imported does not reach the property: a path in it leads nowhere. -/
theorem remoteSet_of_unresolved (h : Host) (hresolve : b.resolve l address interface = .ok (i, x))
    (hproperty : x.property name = .ok p) {fault : Fault}
    (himport : l.importValue b.isLiveObject v p.shape = .error fault) :
    ∃ q, v.Asks p.shape q ∧ (∀ o, ¬l.FindsObject b.isLiveObject q o) ∧
      b.remoteSet h l address interface name v = (.error (.error (.unknownObject q)), b) := by
  obtain ⟨q, hq, hnone, rfl⟩ := Value.fault_of_imported himport
  refine ⟨q, hq, fun o ho => ?_, ?_⟩
  · rw [Loopback.managedAt?_eq_some_iff.2 ho] at hnone
    cases hnone
  · simp only [remoteSet, hresolve, hproperty, himport]

/-- **A write that is not permitted is denied, unless a path leads nowhere.** A property that may not be
written denies every value, whatever its type and its storage. From afar it denies a value if and only if
each path in it that stands where the shape of the property has an object leads to a live one, and
otherwise one of the paths that lead nowhere is complained of. So every value is denied if the shape
has no object in it. Nothing changes in any case. -/
theorem denied_unless_a_path_leads_nowhere (h : Host) (b : Bus) (l : Loopback)
    (address interface name : String) {i : InterfaceId} {x : Interface} {p : Property}
    (hresolve : b.resolve l address interface = .ok (i, x)) (hproperty : x.property name = .ok p)
    (hp : p.IsProtected) :
    (∀ v, b.writeProperty h p v =
      (.error (.error (.permissionDenied "property is not writeable")), b)) ∧
    (∀ v, b.remoteSet h l address interface name v =
        (.error (.error (.accessDenied "property is not writeable")), b) ↔
      ∀ q, v.Asks p.shape q → ∃ o, l.FindsObject b.isLiveObject q o) ∧
    (∀ v, (¬∀ q, v.Asks p.shape q → ∃ o, l.FindsObject b.isLiveObject q o) →
      ∃ q, v.Asks p.shape q ∧ (∀ o, ¬l.FindsObject b.isLiveObject q o) ∧
        b.remoteSet h l address interface name v = (.error (.error (.unknownObject q)), b)) ∧
    (¬(Shape.scalar .object).PartOf p.shape → ∀ v, b.remoteSet h l address interface name v =
      (.error (.error (.accessDenied "property is not writeable")), b)) := by
  have himported : ∀ v : Value, (∀ q, v.Asks p.shape q → ∃ o, l.FindsObject b.isLiveObject q o) →
      b.remoteSet h l address interface name v =
        (.error (.error (.accessDenied "property is not writeable")), b) := by
    intro v hv
    obtain ⟨w, hw⟩ := Loopback.exists_importValue_iff.2 hv
    exact remoteSet_of_imported h hresolve hproperty hp hw
  have hunresolved : ∀ v : Value,
      (¬∀ q, v.Asks p.shape q → ∃ o, l.FindsObject b.isLiveObject q o) →
      ∃ q, v.Asks p.shape q ∧ (∀ o, ¬l.FindsObject b.isLiveObject q o) ∧
        b.remoteSet h l address interface name v = (.error (.error (.unknownObject q)), b) := by
    intro v hv
    cases himport : l.importValue b.isLiveObject v p.shape with
    | error fault => exact remoteSet_of_unresolved h hresolve hproperty himport
    | ok w => exact absurd (Loopback.exists_importValue_iff.1 ⟨w, himport⟩) hv
  refine ⟨fun v => writeProperty_of_protected h hp v b, fun v => ⟨fun hdenied => ?_, himported v⟩,
    hunresolved, fun hplain v =>
      himported v fun q hq => absurd hq (Value.not_asks_of_not_partOf hplain q)⟩
  -- the two refusals are told apart by their faults
  by_contra hv
  obtain ⟨q, -, -, hunknown⟩ := hunresolved v hv
  rw [hdenied] at hunknown
  cases hunknown

/-- A property of objects that was made read-only. -/
def keepsake : Property := .overCell (.scalar .object) ⟨true, true⟩ 5 .readOnly none

/-- A bus on which the lamp is kept in the property. -/
def keepsakeBus : Bus :=
  { lampBus with
    interfaces := [(4, { lampInstance with
      interface := { name := "I", properties := [("keepsake", keepsake)] } })]
    cells := [(5, .typed (.scalar .object) (.scalar .object 9))] }

/-- A number is denied, and so is a path to the lamp; a path that leads nowhere is complained of. -/
theorem denied_unless_a_path_leads_nowhere_to_the_lamp :
    let set := keepsakeBus.remoteSet .inert lampTransport "/r" "I" "keepsake"
    let denied : Except (Failure Fault) Bool × Bus :=
      (.error (.error (.accessDenied "property is not writeable")), keepsakeBus)
    set (.scalar .int32 5) = denied ∧ set (.scalar .path "/r/") = denied ∧
      set (.scalar .path "/s") = (.error (.error (.unknownObject "/s")), keepsakeBus) := by
  intro set denied
  have hresolve : keepsakeBus.resolve lampTransport "/r" "I" =
    .ok (4, { name := "I", properties := [("keepsake", keepsake)] }) := rfl
  obtain ⟨-, hdenied, hunknown, -⟩ := denied_unless_a_path_leads_nowhere .inert keepsakeBus
    lampTransport "/r" "I" "keepsake" hresolve rfl (.readOnly _ _ _ _)
  refine ⟨(hdenied _).2 fun q hq => ?_, (hdenied _).2 fun q hq => ?_, ?_⟩
  · cases hq
  · cases hq
    exact ⟨9, ⟨["r"]⟩, rfl, rfl, rfl⟩
  · obtain ⟨q, hq, -, hset⟩ := hunknown (.scalar .path "/s") fun hall => by
      obtain ⟨o, a, ha, hget, -⟩ := hall "/s" (.path "/s")
      cases ha
      cases hget
    cases hq
    exact hset

end Bus

end ObjectBus
