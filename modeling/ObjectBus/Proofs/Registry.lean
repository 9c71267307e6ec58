import ObjectBus.Loopback
import ObjectBus.Recorder
import ObjectBus.Proofs.Trie

/-!
# The registry of a transport

What a loopback transport holds is read as two relations: `Registers a name n`, the name is
registered at the address for the node `n`, and the object managed at an address. Registering adds
one pair or is refused, dropping takes one pair away, and neither touches another pair.

Registering has one more effect: it takes an address over from a node that is gone. `Orderly`
transports hold no empty registration, so this happens only where a registration of such a node was
left behind; where all registrations are for live nodes, a registration that is dropped again leaves
the transport exactly as it was (`Loopback.unregister_register`).
-/

set_option autoImplicit false

namespace ObjectBus

instance : Std.LawfulEqOrd Address where
  compare_self := Std.ReflOrd.compare_self (α := List String)
  eq_of_compare {a b} h := by
    cases a; cases b
    rw [Address.mk.injEq]
    exact Std.LawfulEqOrd.eq_of_compare h

instance : Std.TransOrd Address where
  eq_swap := Std.OrientedOrd.eq_swap (α := List String)
  isLE_trans := Std.TransOrd.isLE_trans (α := List String)

namespace Loopback

/-- **A registration**: a name at an address, for a node. -/
def Registers (l : Loopback) (a : Address) (name : String) (n : Option NodeId) : Prop :=
  ∃ r, l.registry.get? a = some r ∧ r.node = n ∧ Members.has name r.interfaces = true

/-- **Orderly transports**: the registry is tidy, no registration is empty, and what is listed in
order is in order. -/
structure Orderly (l : Loopback) : Prop where
  tidy : l.registry.Tidy
  occupied : ∀ a r, l.registry.get? a = some r →
    r.interfaces ≠ [] ∧ Entries.Sorted r.interfaces
  managed : Entries.Sorted l.managed

/-- All nodes that have something registered are live. -/
def Tenanted (l : Loopback) (isLive : NodeId → Bool) : Prop :=
  ∀ a r, l.registry.get? a = some r → ∃ m, r.node = some m ∧ isLive m = true

theorem Registers.unique {l : Loopback} {a : Address} {k k' : String} {n n' : Option NodeId}
    (h : l.Registers a k n) (h' : l.Registers a k' n') : n = n' := by
  obtain ⟨r, hr, rfl, _⟩ := h
  obtain ⟨r', hr', rfl, _⟩ := h'
  rw [hr] at hr'
  cases hr'
  rfl

theorem Orderly.exists_registers {l : Loopback} (hl : l.Orderly) {a : Address} {r : Occupant}
    (hr : l.registry.get? a = some r) : ∃ k, l.Registers a k r.node := by
  obtain ⟨k, hk⟩ := Members.exists_has (hl.occupied a r hr).1
  exact ⟨k, r, hr, rfl, hk⟩

/-- A transport that holds nothing is orderly. -/
theorem orderly_of_vacant {l : Loopback} (hregistry : l.registry = .empty)
    (hmanaged : l.managed = []) : l.Orderly := by
  refine ⟨hregistry ▸ Trie.tidy_empty, fun a r hr => ?_, hmanaged ▸ Entries.sorted_nil⟩
  rw [hregistry, Trie.get?_eq_find?, Trie.find?_empty] at hr
  cases hr

/-- A new transport is orderly and holds nothing. -/
theorem make_orderly {c : Settings} {l : Loopback} (h : Loopback.make c = .ok l) (running : Bool) :
    Orderly { l with running } ∧ l.registry = .empty ∧ l.managed = [] := by
  unfold make at h
  split at h
  · cases h
  · cases h
    exact ⟨orderly_of_vacant rfl rfl, rfl, rfl⟩

/-! ## Dropping -/

section Unregister

variable {l : Loopback} (hl : l.Orderly) (a : Address) (k : String)

include hl

theorem registers_unregister {b : Address} {k' : String} {n : Option NodeId} :
    (l.unregister a k).2.Registers b k' n ↔ l.Registers b k' n ∧ ¬(b = a ∧ k' = k) := by
  unfold unregister
  cases hr : l.registry.get? a with
  | none =>
      refine ⟨fun h => ⟨h, ?_⟩, And.left⟩
      rintro ⟨rfl, -⟩
      obtain ⟨r, hr', -⟩ := h
      rw [hr] at hr'
      cases hr'
  | some r =>
      have hs := (hl.occupied a r hr).2
      by_cases hba : b = a
      · subst hba
        simp only [true_and]
        split
        · -- the last name of the address goes, and the address with it
          next hempty =>
            rw [List.isEmpty_iff] at hempty
            constructor
            · rintro ⟨r', hr', -⟩
              rw [Trie.get?_remove_self hl.tidy] at hr'
              cases hr'
            · rintro ⟨⟨r', hr', hn, hk'⟩, hne⟩
              rw [hr] at hr'
              cases hr'
              have hrem := Members.has_remove_of_ne hne r.interfaces
              rw [hempty, hk'] at hrem
              cases hrem
        · constructor
          · rintro ⟨r', hr', rfl, hk'⟩
            rw [Trie.get?_put_self] at hr'
            cases hr'
            have hne : k' ≠ k := by
              rintro rfl
              rw [Members.has_remove_self hs] at hk'
              cases hk'
            rw [Members.has_remove_of_ne hne] at hk'
            exact ⟨⟨r, hr, rfl, hk'⟩, hne⟩
          · rintro ⟨⟨r', hr', rfl, hk'⟩, hne⟩
            rw [hr] at hr'
            cases hr'
            exact ⟨_, Trie.get?_put_self _ _ _, rfl, by rw [Members.has_remove_of_ne hne, hk']⟩
      · simp only [hba, false_and, not_false_eq_true, and_true]
        unfold Registers
        split
        · simp only [Trie.get?_remove_of_ne hl.tidy hba]
        · simp only [Trie.get?_put_of_ne hba]

theorem orderly_unregister : (l.unregister a k).2.Orderly := by
  unfold unregister
  cases hr : l.registry.get? a with
  | none => exact hl
  | some r =>
      have hs := (hl.occupied a r hr).2
      dsimp only
      split
      · refine ⟨Trie.tidy_remove hl.tidy a, fun b r' hr' => ?_, hl.managed⟩
        by_cases hba : b = a
        · subst hba
          rw [Trie.get?_remove_self hl.tidy] at hr'
          cases hr'
        · rw [Trie.get?_remove_of_ne hl.tidy hba] at hr'
          exact hl.occupied b r' hr'
      · next hne =>
          refine ⟨Trie.tidy_put hl.tidy a _, fun b r' hr' => ?_, hl.managed⟩
          by_cases hba : b = a
          · subst hba
            rw [Trie.get?_put_self] at hr'
            cases hr'
            exact ⟨by simpa using hne, Entries.sorted_drop hs k⟩
          · rw [Trie.get?_put_of_ne hba] at hr'
            exact hl.occupied b r' hr'

omit hl in
theorem managed_unregister : (l.unregister a k).2.managed = l.managed := by
  unfold unregister
  split <;> rfl

omit hl in
theorem root_unregister : (l.unregister a k).2.root = l.root := by
  unfold unregister
  split <;> rfl

end Unregister

/-! ## Registering -/

section Register

variable {l l' : Loopback} {isLive : NodeId → Bool} {a : Address} {n : Option NodeId} {k : String}

/-- The three ways in which a registration succeeds: at a free address, at an address that gives
way, and at an address where the node has other names already. -/
theorem register_ok (h : l.register isLive a n k = .ok l') :
    (l' = { l with registry := l.registry.put a { node := n, interfaces := [(k, ())] } } ∧
        ∀ r, l.registry.get? a = some r →
          r.node ≠ n ∧ (r.node.any isLive && !r.interfaces.isEmpty) = false) ∨
      ∃ r, l.registry.get? a = some r ∧ r.node = n ∧ Members.has k r.interfaces = false ∧
        l' = { l with registry :=
          l.registry.put a { r with interfaces := Members.add k r.interfaces } } := by
  unfold register at h
  cases hr : l.registry.get? a with
  | none =>
      rw [hr] at h
      cases h
      exact Or.inl ⟨rfl, by simp⟩
  | some r =>
      rw [hr] at h
      simp only at h
      split at h
      · next hne =>
          split at h
          · cases h
          · next hfree =>
              cases h
              refine Or.inl ⟨rfl, fun r' hr' => ?_⟩
              cases hr'
              exact ⟨hne, by simpa using hfree⟩
      · next heq =>
          split at h
          · cases h
          · next hk =>
              cases h
              exact Or.inr ⟨r, rfl, by simpa using heq, by simpa using hk, rfl⟩

/-- A registration is refused where the node has the name already, or another one has a name. -/
theorem register_error (hl : l.Orderly) {e : BusError} (h : l.register isLive a n k = .error e) :
    l.Registers a k n ∨ ∃ n' k', n' ≠ n ∧ l.Registers a k' n' := by
  unfold register at h
  cases hr : l.registry.get? a with
  | none => rw [hr] at h; cases h
  | some r =>
      rw [hr] at h
      simp only at h
      split at h
      · next hne =>
          obtain ⟨k', hk'⟩ := hl.exists_registers hr
          exact Or.inr ⟨r.node, k', hne, hk'⟩
      · next heq =>
          split at h
          · next hk => exact Or.inl ⟨r, hr, by simpa using heq, hk⟩
          · cases h

theorem orderly_register (hl : l.Orderly) (h : l.register isLive a n k = .ok l') : l'.Orderly := by
  rcases register_ok h with ⟨rfl, -⟩ | ⟨r, hr, -, -, rfl⟩
  · refine ⟨Trie.tidy_put hl.tidy a _, fun b r' hr' => ?_, hl.managed⟩
    by_cases hba : b = a
    · subst hba
      rw [Trie.get?_put_self] at hr'
      cases hr'
      exact ⟨by simp, Entries.sorted_singleton _ _⟩
    · rw [Trie.get?_put_of_ne hba] at hr'
      exact hl.occupied b r' hr'
  · refine ⟨Trie.tidy_put hl.tidy a _, fun b r' hr' => ?_, hl.managed⟩
    by_cases hba : b = a
    · subst hba
      rw [Trie.get?_put_self] at hr'
      cases hr'
      exact ⟨Entries.put_ne_nil _ _ _, Entries.sorted_put (hl.occupied b r hr).2 _ _⟩
    · rw [Trie.get?_put_of_ne hba] at hr'
      exact hl.occupied b r' hr'

theorem registers_register_self (h : l.register isLive a n k = .ok l') : l'.Registers a k n := by
  rcases register_ok h with ⟨rfl, -⟩ | ⟨r, hr, rfl, -, rfl⟩
  · exact ⟨_, Trie.get?_put_self _ _ _, rfl, by simp [Members.has, Entries.has, Entries.get?]⟩
  · exact ⟨_, Trie.get?_put_self _ _ _, rfl, Members.has_add_self _ _⟩

/-- Nothing is registered that was not, but for the one name. -/
theorem registers_of_register (h : l.register isLive a n k = .ok l') {b : Address} {k' : String}
    {m : Option NodeId} (hm : l'.Registers b k' m) :
    l.Registers b k' m ∨ (b = a ∧ k' = k ∧ m = n) := by
  by_cases hba : b = a
  · subst hba
    obtain ⟨r', hr', rfl, hk'⟩ := hm
    rcases register_ok h with ⟨rfl, -⟩ | ⟨r, hr, hn, -, rfl⟩
    · rw [Trie.get?_put_self] at hr'
      cases hr'
      by_cases hkk : k' = k
      · exact Or.inr ⟨rfl, hkk, rfl⟩
      · simp [Members.has, Entries.has, Entries.get?, hkk] at hk'
    · rw [Trie.get?_put_self] at hr'
      cases hr'
      by_cases hkk : k' = k
      · exact Or.inr ⟨rfl, hkk, hn⟩
      · exact Or.inl ⟨r, hr, rfl, by rwa [← Members.has_add_of_ne hkk]⟩
  · refine Or.inl ?_
    rcases register_ok h with ⟨rfl, -⟩ | ⟨r, -, -, -, rfl⟩
    · simpa only [Registers, Trie.get?_put_of_ne hba] using hm
    · simpa only [Registers, Trie.get?_put_of_ne hba] using hm

/-- What is registered for live nodes stays. -/
theorem Registers.register {b : Address} {k' : String} {m : NodeId} (hm : l.Registers b k' (some m))
    (hlive : isLive m = true) (h : l.register isLive a n k = .ok l') :
    l'.Registers b k' (some m) := by
  by_cases hba : b = a
  · subst hba
    obtain ⟨r', hr', hn', hk'⟩ := hm
    rcases register_ok h with ⟨rfl, hfree⟩ | ⟨r, hr, hn, -, rfl⟩
    · obtain ⟨-, hgone⟩ := hfree r' hr'
      have hne := Members.ne_nil_of_has hk'
      simp [hn', hlive, hne] at hgone
    · rw [hr] at hr'
      cases hr'
      refine ⟨_, Trie.get?_put_self _ _ _, hn', ?_⟩
      by_cases hkk : k' = k
      · rw [hkk]; exact Members.has_add_self _ _
      · rw [Members.has_add_of_ne hkk, hk']
  · rcases register_ok h with ⟨rfl, -⟩ | ⟨r, -, -, -, rfl⟩
    · simpa only [Registers, Trie.get?_put_of_ne hba] using hm
    · simpa only [Registers, Trie.get?_put_of_ne hba] using hm

theorem managed_register (h : l.register isLive a n k = .ok l') : l'.managed = l.managed := by
  rcases register_ok h with ⟨rfl, -⟩ | ⟨r, -, -, -, rfl⟩ <;> rfl

theorem root_register (h : l.register isLive a n k = .ok l') : l'.root = l.root := by
  rcases register_ok h with ⟨rfl, -⟩ | ⟨r, -, -, -, rfl⟩ <;> rfl

/-- **A registration is undone without a trace**, where all registrations are for live nodes. -/
theorem unregister_register (hl : l.Orderly) (ht : l.Tenanted isLive)
    (h : l.register isLive a n k = .ok l') : (l'.unregister a k).2 = l := by
  rcases register_ok h with ⟨rfl, hfree⟩ | ⟨r, hr, hn, hk, rfl⟩
  · have hnone : l.registry.get? a = none := by
      cases hr : l.registry.get? a with
      | none => rfl
      | some r =>
          obtain ⟨m, hm, hlive⟩ := ht a r hr
          have hgone := (hfree r hr).2
          simp [hm, hlive, (hl.occupied a r hr).1] at hgone
    have hempty : Members.remove k [(k, ())] = [] := by simp [Members.remove, Entries.drop]
    simp [unregister, hempty, Trie.remove_put hl.tidy hnone]
  · have hne := (hl.occupied a r hr).1
    simp [unregister, Members.remove_add hk, hne, Trie.put_put, Trie.put_eq_self hl.tidy hr]

end Register

/-! ## Managed objects -/

theorem orderly_setManaged {l : Loopback} (hl : l.Orderly) (a : Address) (o : Option ObjectId) :
    (l.setManaged a o).Orderly := by
  refine ⟨hl.tidy, hl.occupied, ?_⟩
  cases o with
  | none => exact Entries.sorted_drop hl.managed a
  | some o => exact Entries.sorted_put hl.managed a o

theorem get?_setManaged {l : Loopback} (hl : l.Orderly) (a b : Address) (o : Option ObjectId) :
    Entries.get? b (l.setManaged a o).managed =
      if b = a then o else Entries.get? b l.managed := by
  cases o with
  | none => exact Entries.get?_drop hl.managed a b
  | some o =>
      simp only [setManaged]
      split
      · next h => rw [h, Entries.get?_put_self]
      · next h => rw [Entries.get?_put_of_ne h]

/-! ## Signals and requests -/

/-- A signal that is handed on changes nothing but the boxes of the listeners. -/
theorem kept_emit {l l' : Loopback} {address interface signal : String} {args : List Value}
    {argsType : Shape} (h : l.emit address interface signal args argsType = .ok l') :
    l'.root = l.root ∧ l'.registry = l.registry ∧ l'.managed = l.managed := by
  unfold emit at h
  split at h
  · cases h
  · split at h
    · cases h
    · cases h
      exact ⟨rfl, rfl, rfl⟩

/-- **A request goes where its name is registered.** -/
theorem resolve_eq_ok_iff {l : Loopback} {address interface : String} {n : Option NodeId} :
    l.resolve address interface = .ok n ↔
      ∃ a, Address.parse address = .ok a ∧ l.Registers a interface n := by
  unfold resolve Address.ofRequest
  cases Address.parse address with
  | error e => simp
  | ok a =>
      cases hr : l.registry.get? a with
      | none => simp [Registers, hr]
      | some r =>
          cases hk : Members.has interface r.interfaces with
          | false => simp [Registers, hr, hk]
          | true => simp [Registers, hr, hk]

end Loopback

namespace Recorder

/-- A recorder that accepted a registration drops it again without a trace. -/
theorem drop_add {r r' : Recorder} {address name : String} (h : r.add address name = (.ok, r')) :
    (r'.drop address name).2 = r := by
  unfold add at h
  split at h
  · cases h
  · split at h
    · cases h
    · next hnew =>
        cases h
        have hkeep : r.registered.filter (· != (address, name)) = r.registered := by
          refine List.filter_eq_self.2 fun p hp => ?_
          simp only [bne_iff_ne, ne_eq]
          rintro rfl
          exact hnew (by simpa using hp)
        simp [drop, List.filter_append, hkeep]

/-- A recorder that does not accept a registration stays as it is. -/
theorem add_not_ok {r r' : Recorder} {address name : String} {outcome : Registered}
    (h : r.add address name = (outcome, r')) (hne : outcome ≠ .ok) : r' = r := by
  unfold add at h
  split at h
  · cases h; rfl
  · split at h
    · cases h; rfl
    · cases h; exact absurd rfl hne

end Recorder

end ObjectBus
