import ObjectBus.Proofs.Run
import ObjectBus.Proofs.Wire

/-!
# The address of a node

On a transport a node has the text that joins the root of the transport and the path of the node. Names
may be any texts: empty, or with slashes in them, as a node has after its root was destroyed. What is read
of the text does not depend on where the slashes come from. It is the root and then the non-empty pieces
of all names from the root of the tree down to the node (`Forest.parts_path`), and it is an address if and
only if all these pieces are components.
-/

set_option autoImplicit false

namespace ObjectBus

namespace Address

/-- Joining names with slashes puts their parts one after the other. -/
theorem parts_intercalate (names : List String) :
    parts ("/".intercalate names) = names.flatMap parts := by
  rw [← segments_toList, String.toList_intercalate]
  change segments (['/'].intercalate (names.map String.toList)) = _
  induction names with
  | nil => rfl
  | cons name names ih =>
      cases names with
      | nil => simp [segments_toList]
      | cons name' names =>
          rw [List.flatMap_cons, ← ih, List.map_cons, List.map_cons, List.intercalate_cons_cons,
            List.append_assoc, ← segments_toList]
          exact segments_append name.toList _

end Address

/-- **What is read of a path** are the parts of all names on the way down to the node. -/
theorem Forest.parts_path (f : Forest) (n : NodeId) :
    Address.parts (f.path n) = (f.names n).flatMap Address.parts := by
  rw [path_eq_names, Address.parts_intercalate]
  induction f.names n with
  | nil => rfl
  | cons name names ih =>
      by_cases hname : name = ""
      · simp [hname, ih, show Address.parts "" = [] from rfl]
      · simp [hname, ih]

namespace Loopback

theorem Step.root {l l' : Loopback} (h : Step l l') : l'.root = l.root := by
  cases h with
  | register _ h => exact root_register h
  | unregister name _ => exact root_unregister _ name
  | manage o _ => cases o <;> rfl
  | emit h => exact (kept_emit h).1
  | _ => rfl

/-- **The root of a transport** is the text of an address. -/
theorem Reachable.exists_root {l : Loopback} (hl : l.Reachable) :
    ∃ r : Address, r.Proper ∧ l.root = r.render := by
  induction hl with
  | make h =>
      unfold Loopback.make Settings.parsedRoot at h
      split at h
      · cases h
      · next r hr =>
          cases h
          split at hr
          · cases hr
          · next hparse =>
              cases hr
              exact ⟨r, Address.proper_of_parse hparse, rfl⟩
  | step _ h ih => exact h.root ▸ ih

end Loopback

open Address in
/-- **The address of a node** on a transport is read of the parts of all names from the root of its tree
down to it, in whatever way these were given and moved there. If all are runs of letters, digits and
underscores, the address has the components of the root of the transport and then these parts. If not, the
text is no address, and what is wrong is the first part that is no such run: it is named, with its place
after the components of the root and its first invalid character. -/
theorem Bus.node_address (b : Bus) {t : TransportId} {l : Loopback} (ht : b.loopback? t = some l)
    (hl : l.Reachable) (n : NodeId) :
    let pieces := (b.forest.names n).flatMap parts
    ∃ r, parse l.root = .ok r ∧ l.root = r.render ∧
      ((∀ p ∈ pieces, ∀ x ∈ p.toList, isComponentChar x = true) →
        parse (b.addressText n t) = .ok ⟨r.components ++ pieces⟩) ∧
      ((¬∀ p ∈ pieces, ∀ x ∈ p.toList, isComponentChar x = true) →
        ∃ e, parse (b.addressText n t) = .error e) ∧
      ∀ e, parse (b.addressText n t) = .error e ↔ ∃ place piece c,
        FirstInvalid pieces place piece c ∧
          e = .invalidCharacter piece (r.components.length + place) c := by
  intro pieces
  obtain ⟨r, hr, hroot⟩ := hl.exists_root
  have hparse : parse (b.addressText n t) =
      (checkComponents r.components.length pieces).map fun _ => ⟨r.components ++ pieces⟩ := by
    have htext : b.addressText n t = join r.render (b.forest.path n) := by
      rw [Bus.addressText, Bus.rootOf, Bus.transport?_of_loopback? ht, ← hroot]
      rfl
    rw [htext, parse_join (parse_render hr), segments_toList, Forest.parts_path]
  rw [hparse, ← @checkComponents_eq_ok_iff pieces r.components.length]
  refine ⟨r, hroot ▸ parse_render hr, hroot, fun h => ?_, fun h => ?_, fun e => ?_⟩
  · rw [h]
    rfl
  · cases hcheck : checkComponents r.components.length pieces with
    | error e => exact ⟨e, rfl⟩
    | ok u => exact absurd hcheck h
  · rw [← checkComponents_eq_error_iff]
    cases checkComponents r.components.length pieces <;> simp [Except.map]

/-- A tree whose root is gone, on a transport whose root has slashes too many. -/
def overgrown : Bus :=
  Bus.after 0 [.openLoopback { root := "/srv//x/" }, .makeRoot "a//b/", .makeChild 0 "",
    .makeChild 1 "c", .makeChild 2 "no-go", .dropNode 0]

/-- The name that was taken over counts as two components and the empty name as none; the node below has
no address for the dash in its name. -/
theorem node_address_overgrown :
    ∃ l, overgrown.loopback? 0 = some l ∧ l.Reachable ∧
      overgrown.addressText 2 0 = "/srv/x/a//b//c" ∧
      Address.parse (overgrown.addressText 2 0) = .ok ⟨["srv", "x", "a", "b", "c"]⟩ ∧
      Address.parse (overgrown.addressText 3 0) = .error (.invalidCharacter "no-go" 5 '-') := by
  have hl : Loopback.Reachable { name := "local", root := "/srv/x" } :=
    .make (c := { root := "/srv//x/" }) rfl
  have ht : overgrown.loopback? 0 = some { name := "local", root := "/srv/x" } := rfl
  have hpieces : (overgrown.forest.names 2).flatMap Address.parts = ["a", "b", "c"] ∧
      (overgrown.forest.names 3).flatMap Address.parts = ["a", "b", "c", "no-go"] := by
    decide +kernel
  obtain ⟨r, hr, -, hok, -⟩ := overgrown.node_address ht hl 2
  obtain ⟨r', hr', -, -, -, herror⟩ := overgrown.node_address ht hl 3
  obtain rfl : (⟨["srv", "x"]⟩ : Address) = r := Except.ok.inj hr
  obtain rfl : (⟨["srv", "x"]⟩ : Address) = r' := Except.ok.inj hr'
  rw [hpieces.1] at hok
  rw [hpieces.2] at herror
  refine ⟨_, ht, hl, by decide +kernel, hok (by simp [Address.isComponentChar]),
    (herror _).2 ⟨3, "no-go", '-', ?_, rfl⟩⟩
  exact ⟨rfl, by simp [Address.isComponentChar], ['n', 'o'], ['g', 'o'], rfl,
    by simp [Address.isComponentChar], rfl⟩

end ObjectBus
