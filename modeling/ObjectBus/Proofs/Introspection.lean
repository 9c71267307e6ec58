import ObjectBus.Bus.Remote
import ObjectBus.Proofs.Trie.Branches
import ObjectBus.Proofs.Wire

/-!
# Where there is something to describe

An address is described if something is registered at it or below it. Whether it is, is read off the
branches of the registry: a branch stands for what is stored in it, since storing makes the branches on
the way and removing drops those that lead nowhere (`Trie.Tidy.exists_branch?_iff`).

The top is no branch of anything, and is there when nothing is stored. So the root address counts as
having something below it in any case (`Trie.Tidy.hasBranch_iff`), and can be described on a transport
with an empty registry. Everywhere else it is just as it should be.
-/

set_option autoImplicit false

namespace ObjectBus

namespace Trie

variable {α : Type}

/-- **There is a branch at the root, and wherever something is stored or stored below.** -/
theorem Tidy.hasBranch_iff {t : Trie α} (h : t.Tidy) {a : Address} :
    t.hasBranch a = true ↔
      a = Address.root ∨ ∃ b, (t.get? b).isSome = true ∧ b.isWithin a = true := by
  obtain ⟨cs⟩ := a
  rw [hasBranch, Option.isSome_iff_exists]
  cases cs with
  | nil =>
      -- the branch at the root is the trie itself, whatever it stores
      exact ⟨fun _ => Or.inl rfl, fun _ => ⟨t, rfl⟩⟩
  | cons c cs =>
      have hne : (⟨c :: cs⟩ : Address) ≠ Address.root := by simp [Address.root]
      rw [h.exists_branch?_iff (List.cons_ne_nil c cs), or_iff_right hne]

/-- An address with a value has a branch, so only the branch matters. -/
theorem isNone_and_not_hasBranch (t : Trie α) (a : Address) :
    ((t.get? a).isNone && !t.hasBranch a) = !t.hasBranch a := by
  rw [get?, hasBranch]
  cases t.branch? a.components <;> simp

end Trie

namespace Loopback

variable {l : Loopback}

/-- Whatever is done to a transport keeps it orderly. -/
theorem Step.orderly {l' : Loopback} (h : Step l l') (hl : l.Orderly) : l'.Orderly := by
  have hsame : ∀ {m : Loopback}, m.registry = l.registry → m.managed = l.managed → m.Orderly :=
    fun hregistry hmanaged => ⟨hregistry ▸ hl.tidy, hregistry ▸ hl.occupied, hmanaged ▸ hl.managed⟩
  cases h with
  | switch => exact hsame rfl rfl
  | register _ h => exact orderly_register hl h
  | unregister name _ => exact orderly_unregister hl _ name
  | manage o _ => exact orderly_setManaged hl _ o
  | subscribe => exact hsame rfl rfl
  | unsubscribe => exact hsame rfl rfl
  | clearInbox => exact hsame rfl rfl
  | emit h => exact hsame (kept_emit h).2.1 (kept_emit h).2.2

/-- **All states of a transport are orderly.** -/
theorem Reachable.orderly (hl : l.Reachable) : l.Orderly := by
  induction hl with
  | make h => exact (make_orderly h _).1
  | step _ h ih => exact h.orderly ih

/-- **Something is registered** at an address or below it. -/
def Serves (l : Loopback) (a : Address) : Prop :=
  ∃ e name n, e.isWithin a = true ∧ l.Registers e name n

/-- No occupant is without names, so something is registered where somebody is. -/
theorem Orderly.serves_iff (hl : l.Orderly) {a : Address} :
    l.Serves a ↔ ∃ e, (l.registry.get? e).isSome = true ∧ e.isWithin a = true := by
  constructor
  · rintro ⟨e, name, n, hwithin, r, hr, -⟩
    exact ⟨e, by rw [hr]; rfl, hwithin⟩
  · rintro ⟨e, he, hwithin⟩
    obtain ⟨r, hr⟩ := Option.isSome_iff_exists.1 he
    obtain ⟨name, hname⟩ := hl.exists_registers hr
    exact ⟨e, name, r.node, hwithin, hname⟩

end Loopback

namespace Bus

/-- A text is described if it is an address with a branch, and complained of otherwise. -/
theorem introspect_cases (b : Bus) (l : Loopback) (s : String) :
    (∃ o, b.introspect l s = .ok o) ∧
        (∃ a, Address.parse s = .ok a ∧ l.registry.hasBranch a = true) ∨
      b.introspect l s = .error (.unknownObject s) ∧
        ¬∃ a, Address.parse s = .ok a ∧ l.registry.hasBranch a = true := by
  unfold introspect Address.ofRequest
  cases ha : Address.parse s with
  | error e => exact Or.inr ⟨rfl, by simp⟩
  | ok a =>
      simp only [Trie.isNone_and_not_hasBranch]
      cases hbranch : l.registry.hasBranch a with
      | true => exact Or.inl ⟨⟨_, rfl⟩, a, rfl, hbranch⟩
      | false =>
          refine Or.inr ⟨rfl, ?_⟩
          rintro ⟨a', ha', hbranch'⟩
          cases ha'
          rw [hbranch] at hbranch'
          cases hbranch'

/-- **What is described is what is registered, and the root.** Whatever was asked of a trie, it has a
branch at the root address, and at another one if and only if something is stored there or below. So in
all states of a transport a text is described if and only if it is the root address or one at which, or
below which, an interface is registered, and is an unknown object otherwise. -/
theorem described_iff_registered_or_root {α : Type} {rs : List (Trie.Request α)}
    (hrs : ∀ r ∈ rs, r.Proper) (a : Address) (b : Bus) {l : Loopback} (hl : l.Reachable) (s : String) :
    ((Trie.afterRequests rs).hasBranch a = true ↔
      a = Address.root ∨ ∃ e, (Trie.mapAfter rs e).isSome = true ∧ e.isWithin a = true) ∧
    ((∃ o, b.introspect l s = .ok o) ↔
      ∃ a, Address.parse s = .ok a ∧ (a = Address.root ∨ l.Serves a)) ∧
    ((¬∃ a, Address.parse s = .ok a ∧ (a = Address.root ∨ l.Serves a)) →
      b.introspect l s = .error (.unknownObject s)) := by
  have hrep := Trie.represents_afterRequests hrs
  have hiff : (∃ a, Address.parse s = .ok a ∧ (a = Address.root ∨ l.Serves a)) ↔
      ∃ a, Address.parse s = .ok a ∧ l.registry.hasBranch a = true := by
    simp only [hl.orderly.serves_iff, hl.orderly.tidy.hasBranch_iff]
  refine ⟨by simp only [hrep.tidy.hasBranch_iff, hrep.get?], ?_⟩
  rw [hiff]
  rcases introspect_cases b l s with ⟨hok, hbranch⟩ | ⟨herror, hnone⟩
  · exact ⟨iff_of_true hok hbranch, fun h => absurd hbranch h⟩
  · refine ⟨iff_of_false ?_ hnone, fun _ => herror⟩
    rintro ⟨o, ho⟩
    rw [herror] at ho
    cases ho

/-- A transport on which nothing is registered. -/
def vacantTransport : Loopback where
  name := "local"
  root := "/"

theorem not_serves_vacantTransport (a : Address) : ¬vacantTransport.Serves a := by
  rintro ⟨e, name, n, -, r, hr, -⟩
  exact absurd hr (by simp [vacantTransport])

/-- Where nothing is stored any more there is a branch at the root address still, and where nothing is
registered the root address is described; the address below is not. -/
theorem described_iff_registered_or_root_when_nothing_is_registered :
    let rs : List (Trie.Request Nat) := [.insert ⟨["a"]⟩ 1, .remove ⟨["a"]⟩]
    (∀ r ∈ rs, r.Proper) ∧ (∀ e, Trie.mapAfter rs e = none) ∧
      (Trie.afterRequests rs).hasBranch Address.root = true ∧
      (Trie.afterRequests rs).hasBranch ⟨["a"]⟩ = false ∧
      vacantTransport.Reachable ∧ ¬vacantTransport.Serves Address.root ∧
      (∃ o, Bus.introspect {} vacantTransport "/" = .ok o) ∧
      Bus.introspect {} vacantTransport "/a" = .error (.unknownObject "/a") := by
  intro rs
  have hproper : ∀ r ∈ rs, r.Proper := by decide
  have hnone : ∀ e, Trie.mapAfter rs e = none := by
    intro e
    simp [rs, Trie.mapAfter, Trie.Request.change]
  have hvacant : vacantTransport.Reachable := .make (c := {}) rfl
  obtain ⟨hroot, hdescribed, -⟩ :=
    described_iff_registered_or_root hproper Address.root {} hvacant "/"
  obtain ⟨hbelow, -, hunknown⟩ := described_iff_registered_or_root hproper ⟨["a"]⟩ {} hvacant "/a"
  refine ⟨hproper, hnone, hroot.2 (Or.inl rfl), ?_, hvacant, not_serves_vacantTransport _,
    hdescribed.2 ⟨Address.root, rfl, Or.inl rfl⟩, hunknown ?_⟩
  · rw [← Bool.not_eq_true, hbelow]
    rintro (h | ⟨e, he, -⟩)
    · cases h
    · rw [hnone e] at he
      cases he
  · rintro ⟨a, ha, h | hserves⟩
    · subst h
      cases ha
    · exact not_serves_vacantTransport a hserves

end Bus

end ObjectBus
