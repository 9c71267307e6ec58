import ObjectBus.Proofs.Emission
import ObjectBus.Proofs.Native

/-!
# Typed and encoded emission

A signal is emitted with a native pack or with encoded values, and the two are checked in different
ways. Of a pack only the types are compared with the declaration (`Signal.checkTypes`), and no value is
looked at; of encoded values every one is looked at, with all that is in it (`Signal.checkValues`).

They cannot disagree (`Bus.typed_emission_agrees`), because what a native type encodes to has the shape
of the type, whatever is in it. Of an empty container nothing is looked at but its kind, and what a
container holds is of the shape that its type says, at every depth.

What comes of a signal that has passed its check is one question for both ways, and `Bus.Sent` answers it
for every state.
-/

set_option autoImplicit false

namespace ObjectBus

/-- **A pack that passes its check passes it encoded**, value by value. -/
theorem Signal.checkValues_encodePack {s : Signal} {types : List Native}
    (h : s.checkTypes (Native.shapes types) = .ok ()) (args : Native.Pack types) :
    s.checkValues (Native.encodePack types args) = .ok () := by
  have htypes : Native.shapes types = s.types := checkTypes_eq_ok_iff.1 h
  exact checkValues_eq_ok (htypes ▸ Native.matches_encodePack types args)

namespace Bus

/-- **Typed and encoded emission agree.** In every state, a pack whose types are the declared ones
passes its check, and its encoding passes the check of values. From there both ways come to the same:
nothing happens in both, or both are refused as a moved copy, or both make the same calls, with the
encoded pack for arguments and the declared type of all of them. -/
theorem typed_emission_agrees (h : Host) {b : Bus} {i : InterfaceId} {x : Instance}
    (hi : b.interface? i = some x) {signal : String} {s : Signal}
    (hs : Entries.get? signal x.interface.signals = some s) {types : List Native}
    (htypes : Native.shapes types = s.types) (args : Native.Pack types) :
    let encoded := Native.encodePack types args
    s.checkTypes (Native.shapes types) = .ok () ∧
    (∀ d : Signal, d.checkTypes (Native.shapes types) = .ok () → d.checkValues encoded = .ok ()) ∧
    b.emitPack h i signal types args = b.emitValues h i signal encoded ∧
    ∀ r, b.emitPack h i signal types args = r ↔ Sent h b i x signal encoded s.argsType r := by
  intro encoded
  have hcheck : s.checkTypes (Native.shapes types) = .ok () := Signal.checkTypes_eq_ok_iff.2 htypes
  have hpack : b.emitPack h i signal types args = b.send h i signal encoded s.argsType :=
    Emission.run_eq_send h hi (e := .pack signal types args) hs htypes
  have hmatches : (Emission.values signal encoded).Matches s := by
    rw [Emission.Matches, ← htypes]
    exact Native.matches_encodePack types args
  have hvalues : b.emitValues h i signal encoded = b.send h i signal encoded s.argsType :=
    Emission.run_eq_send h hi (e := .values signal encoded) hs hmatches
  refine ⟨hcheck, fun d hd => Signal.checkValues_encodePack hd args, hpack.trans hvalues.symm,
    fun r => ?_⟩
  rw [hpack]
  exact send_eq_iff h hi signal encoded s.argsType

section Example

/-- An interface whose signal carries rows of numbers, and limits by name. -/
def gauge : Interface :=
  { name := "gauge"
    signals := [("read", { names := ["rows", "limits"],
                           types := [.vector (.vector (.scalar .int32)),
                             .map (.scalar .string) (.tuple [.scalar .bool, .scalar .double])] })] }

/-- A gauge at a node with two transports, where another gauge was before it was moved out. -/
def regauged : Bus :=
  Bus.after 0 [.openRecorder "a" "/", .openRecorder "b" "/up", .makeRoot "n", .bind 0 0, .bind 0 1,
    .build gauge, .makeInterface 2 0, .takeOut 2, .build gauge, .makeInterface 4 0]

/-- What the gauge reads, as a native pack: one row is empty, and the later limit comes first. -/
def gaugePack : List Native :=
  [.vector (.vector (.scalar .int32)), .map (.scalar .string) (.tuple [.scalar .bool, .scalar .double])]

def gaugeReads : Native.Pack gaugePack :=
  ([[], [1, 2]], [("max", (true, 7, ())), ("min", (false, 0, ()))], ())

/-- The gauge calls both transports either way, and the other one is refused either way. -/
theorem typed_emission_agrees_for_gauge :
    let encoded := Native.encodePack gaugePack gaugeReads
    let typed := regauged.emitPack .inert 4 "read" gaugePack gaugeReads
    typed = regauged.emitValues .inert 4 "read" encoded ∧ typed.1 = .ok () ∧
      typed.2.desk.trace.length = regauged.desk.trace.length + 2 ∧
      regauged.emitPack .inert 3 "read" gaugePack gaugeReads = (.error .movedCopy, regauged) ∧
      regauged.emitValues .inert 3 "read" encoded = (.error .movedCopy, regauged) := by
  intro encoded typed
  have hgauge : ∀ i, i = 3 ∨ i = 4 → ∃ x s, regauged.interface? i = some x ∧ x.owner = some 0 ∧
      x.interface.name = "gauge" ∧ Entries.get? "read" x.interface.signals = some s ∧
      Native.shapes gaugePack = s.types := by
    intro i hi
    have hview : (regauged.interface? i).map (fun x => (x.owner, x.interface.name,
        (Entries.get? "read" x.interface.signals).map fun s =>
          Native.shapes gaugePack == s.types)) = some (some 0, "gauge", some true) := by
      rcases hi with rfl | rfl <;> decide +kernel
    obtain ⟨x, hx, hview⟩ := Option.map_eq_some_iff.1 hview
    simp only [Prod.mk.injEq] at hview
    obtain ⟨ho, hname, hview⟩ := hview
    obtain ⟨s, hs, htypes⟩ := Option.map_eq_some_iff.1 hview
    exact ⟨x, s, hx, ho, hname, hs, eq_of_beq htypes⟩
  obtain ⟨y, hy, hname⟩ : ∃ y, regauged.node? 0 = some y ∧
      Entries.get? "gauge" y.interfaces = some 4 := by
    have hview : (regauged.node? 0).bind (fun y => Entries.get? "gauge" y.interfaces) = some 4 := by
      decide +kernel
    exact Option.bind_eq_some_iff.1 hview
  obtain ⟨x, s, hx, ho, hgauge₄, hs, htypes⟩ := hgauge 4 (Or.inr rfl)
  obtain ⟨-, -, hagree, hsent⟩ := typed_emission_agrees .inert hx hs htypes gaugeReads
  have hcalls := (hsent _).2 (.announced ho hy (hgauge₄ ▸ hname) (by decide +kernel))
  obtain ⟨x', s', hx', ho', hgauge₃, hs', htypes'⟩ := hgauge 3 (Or.inl rfl)
  obtain ⟨-, -, hagree', hsent'⟩ := typed_emission_agrees .inert hx' hs' htypes' gaugeReads
  have hrefused := (hsent' _).2 (.refused ho' hy (hgauge₃ ▸ hname) fun hsame =>
    absurd hsame.1 (by decide))
  exact ⟨hagree, congrArg Prod.fst hcalls, by decide +kernel, hrefused, hagree' ▸ hrefused⟩

end Example

end Bus

end ObjectBus
