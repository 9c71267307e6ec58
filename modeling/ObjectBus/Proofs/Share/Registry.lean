import ObjectBus.Proofs.Registry
import ObjectBus.Proofs.Share.Trees

/-!
# A registry among others

The addresses of a share are where its party registers. `Loopback.Embeds` says that the registry of a
party alone is found at these addresses of a registry that others use as well, under the ids of the
share, and that everywhere else the second registry is as others have it. Registering, dropping and
managing at an address of the share keep this, and registering is refused in the one where it is refused in the
other: the answer depends on what stands at the address only, whatever stands above or below it.
-/

set_option autoImplicit false

namespace ObjectBus

/-- What is registered, under the ids of the share. -/
def Share.occupant (p : Share) (r : Occupant) : Occupant := { r with node := r.node.map p.nodeId }

namespace Loopback

variable {p : Share} {rest : Loopback}

/-- **The registry of `l` stands in that of `l'`**, at the addresses of the share; elsewhere `l'` is
as `rest`. -/
structure Embeds (p : Share) (rest l l' : Loopback) : Prop where
  root : l'.root = l.root
  rooted : l'.root = rest.root
  occupants : ∀ a, p.owns a → l'.registry.get? a = (l.registry.get? a).map p.occupant
  managed : ∀ a, p.owns a → Entries.get? a l'.managed = Entries.get? a l.managed
  within : ∀ a, ¬p.owns a → l.registry.get? a = none ∧ Entries.get? a l.managed = none
  others : ∀ a, ¬p.owns a → l'.registry.get? a = rest.registry.get? a ∧
    Entries.get? a l'.managed = Entries.get? a rest.managed

namespace Embeds

variable {l l' : Loopback} (h : Embeds p rest l l') {a : Address} (ha : p.owns a)

include h ha

/-- What stands at one address of the share is changed. -/
theorem set {r r' : Trie Occupant} (x : Option Occupant)
    (hr : ∀ c, r.get? c = if c = a then x else l.registry.get? c)
    (hr' : ∀ c, r'.get? c = if c = a then x.map p.occupant else l'.registry.get? c) :
    Embeds p rest { l with registry := r } { l' with registry := r' } where
  root := h.root
  rooted := h.rooted
  occupants c hc := by
    rw [hr, hr']
    split
    · rfl
    · exact h.occupants c hc
  managed := h.managed
  within c hc := by
    have hca : c ≠ a := fun heq => hc (heq ▸ ha)
    rw [hr, if_neg hca]
    exact h.within c hc
  others c hc := by
    have hca : c ≠ a := fun heq => hc (heq ▸ ha)
    rw [hr', if_neg hca]
    exact h.others c hc

theorem put (x : Occupant) :
    Embeds p rest { l with registry := l.registry.put a x }
      { l' with registry := l'.registry.put a (p.occupant x) } := by
  have hput : ∀ (t : Trie Occupant) (y : Occupant) (c : Address),
      (t.put a y).get? c = if c = a then some y else t.get? c := by
    intro t y c
    by_cases hca : c = a
    · rw [hca, if_pos rfl, Trie.get?_put_self]
    · rw [if_neg hca, Trie.get?_put_of_ne hca]
  exact h.set ha (some x) (hput _ x) (hput _ _)

theorem remove (hl : l.Orderly) (hl' : l'.Orderly) :
    Embeds p rest { l with registry := l.registry.remove a }
      { l' with registry := l'.registry.remove a } := by
  have hremove : ∀ {t : Trie Occupant}, t.Tidy → ∀ c : Address,
      (t.remove a).get? c = if c = a then none else t.get? c := by
    intro t ht c
    by_cases hca : c = a
    · rw [hca, if_pos rfl, Trie.get?_remove_self ht]
    · rw [if_neg hca, Trie.get?_remove_of_ne ht hca]
  exact h.set ha none (hremove hl.tidy) (hremove hl'.tidy)

/-- Dropping a name at an address of the share. -/
theorem unregister (hl : l.Orderly) (hl' : l'.Orderly) (k : String) :
    Embeds p rest (l.unregister a k).2 (l'.unregister a k).2 := by
  have hat := h.occupants a ha
  unfold Loopback.unregister
  cases hr : l.registry.get? a with
  | none =>
      rw [hr] at hat
      rw [hat]
      exact h
  | some r =>
      rw [hr] at hat
      rw [hat]
      simp only [Option.map_some, Share.occupant]
      split
      · exact h.remove ha hl hl'
      · exact h.put ha _

/-- Managing at an address of the share. -/
theorem setManaged (hl : l.Orderly) (hl' : l'.Orderly) (object : Option ObjectId) :
    Embeds p rest (l.setManaged a object) (l'.setManaged a object) where
  root := h.root
  rooted := h.rooted
  occupants := h.occupants
  managed c hc := by rw [get?_setManaged hl, get?_setManaged hl', h.managed c hc]
  within c hc := by
    have hca : c ≠ a := fun heq => hc (heq ▸ ha)
    rw [get?_setManaged hl, if_neg hca]
    exact h.within c hc
  others c hc := by
    have hca : c ≠ a := fun heq => hc (heq ▸ ha)
    rw [get?_setManaged hl', if_neg hca]
    exact h.others c hc

/-- **Registering at an address of the share** is refused in both, in the same words, or accepted in
both. -/
theorem register {isLive isLive' : NodeId → Bool}
    (hlive : ∀ n, isLive' (p.nodeId n) = isLive n) (n : Option NodeId) (k : String) :
    (∃ e, l.register isLive a n k = .error e ∧
        l'.register isLive' a (n.map p.nodeId) k = .error e) ∨
      ∃ m m', l.register isLive a n k = .ok m ∧
        l'.register isLive' a (n.map p.nodeId) k = .ok m' ∧ Embeds p rest m m' := by
  have hat := h.occupants a ha
  have hfresh := h.put ha { node := n, interfaces := [(k, ())] }
  unfold Loopback.register
  cases hr : l.registry.get? a with
  | none =>
      rw [hr] at hat
      rw [hat]
      exact Or.inr ⟨_, _, rfl, rfl, hfresh⟩
  | some r =>
      rw [hr] at hat
      rw [hat]
      have hnode : r.node.map p.nodeId ≠ n.map p.nodeId ↔ r.node ≠ n :=
        not_congr (Option.map_injective p.nodeId_injective).eq_iff
      have hany : (r.node.map p.nodeId).any isLive' = r.node.any isLive := by
        cases r.node with
        | none => rfl
        | some m => exact hlive m
      simp only [Option.map_some, Share.occupant, hnode, hany]
      by_cases hne : r.node ≠ n
      · -- another node was here first
        rw [if_pos hne, if_pos hne]
        by_cases hused : (r.node.any isLive && !r.interfaces.isEmpty) = true
        · rw [if_pos hused, if_pos hused]
          exact Or.inl ⟨_, rfl, rfl⟩
        · rw [if_neg hused, if_neg hused]
          exact Or.inr ⟨_, _, rfl, rfl, hfresh⟩
      · rw [if_neg hne, if_neg hne]
        by_cases hhas : Members.has k r.interfaces = true
        · rw [if_pos hhas, if_pos hhas]
          exact Or.inl ⟨_, rfl, rfl⟩
        · rw [if_neg hhas, if_neg hhas]
          exact Or.inr ⟨_, _, rfl, rfl, h.put ha _⟩

end Embeds

end Loopback

end ObjectBus
