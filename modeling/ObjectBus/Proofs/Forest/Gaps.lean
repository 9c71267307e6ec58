import ObjectBus.Proofs.Forest.Descendants

/-!
# Forests with gaps

Destroying a node takes three steps: its parent and its children are noted, transports are called,
and then the links are rewritten as they were noted. A transport that calls back may let go of the
parent or of a child meanwhile. So an id comes into a list whose node is gone, and a node keeps a
parent that is gone; the two sides of a link agree no longer (`Forest.WellFormed`).

What is left is `Forest.Coherent`. Each id is still listed once, and by an older one, and among the
nodes that are there links agree: only ids that are gone are in the way. Rewriting the links as they
were noted keeps this (`Coherent.uproot`), because of what a list may lose in the time between. An id
leaves the list of a node that stays there only when it goes, and then it comes to no other list
(`Forest.Succeeds`).
-/

set_option autoImplicit false

namespace ObjectBus.Forest

/-- **Coherent forests**: well-formed, but for ids that are gone. -/
structure Coherent (f : Forest) : Prop extends Layered f where
  sorted : Entries.Sorted f.nodes
  fresh : ∀ {n x}, f.get? n = some x → n < f.next
  given : ∀ {p c}, f.Lists p c → c < f.next
  older : ∀ {c x p}, f.get? c = some x → x.parent = some p → p < c
  /-- Where both ends of a link are there, its two sides agree. -/
  agree : ∀ {p c x}, (f.get? p).isSome → f.get? c = some x → (f.Lists p c ↔ x.parent = some p)

/-- **An id that is out of the forest**, neither there nor listed. -/
structure Forgotten (f : Forest) (n : NodeId) : Prop where
  gone : f.get? n = none
  unlisted : ∀ p, ¬f.Lists p n

/-- **What may be counted on later**: what is gone stays so, and what leaves a list, while the node that
has the list stays, is out of the forest. -/
structure Succeeds (f g : Forest) : Prop where
  next : f.next ≤ g.next
  gone : ∀ {n}, n < f.next → f.get? n = none → g.get? n = none
  forgotten : ∀ {n}, n < f.next → f.Forgotten n → g.Forgotten n
  lists : ∀ {p c}, f.Lists p c → (g.get? p).isSome → g.Lists p c ∨ g.Forgotten c

theorem Lists.isSome {f : Forest} {p c : NodeId} (h : f.Lists p c) : (f.get? p).isSome := by
  obtain ⟨y, hy, -⟩ := lists_iff.1 h
  exact Option.isSome_iff_exists.2 ⟨y, hy⟩

theorem WellFormed.coherent {f : Forest} (hf : f.WellFormed) : f.Coherent where
  toLayered := hf.layered
  sorted := hf.sorted
  fresh := hf.fresh
  given h := by
    obtain ⟨x, hx, -⟩ := hf.lists_iff.1 h
    exact hf.fresh hx
  older hx hp := (hf.parent hx hp).1
  agree _ hx := by
    rw [hf.lists_iff]
    constructor
    · rintro ⟨y, hy, hp⟩
      exact Option.some.inj (hx.symm.trans hy) ▸ hp
    · exact fun hp => ⟨_, hx, hp⟩

theorem Coherent.lt_next {f : Forest} (hf : f.Coherent) {n : NodeId} (h : (f.get? n).isSome) :
    n < f.next := by
  obtain ⟨x, hx⟩ := Option.isSome_iff_exists.1 h
  exact hf.fresh hx

namespace Succeeds

theorem refl (f : Forest) : f.Succeeds f := ⟨Nat.le_refl _, fun _ => id, fun _ => id, fun h _ => Or.inl h⟩

/-- What is there later was there before. -/
theorem isSome {f g : Forest} (h : f.Succeeds g) {n : NodeId} (hlt : n < f.next)
    (hn : (g.get? n).isSome) : (f.get? n).isSome := by
  by_contra hnot
  rw [h.gone hlt (Option.not_isSome_iff_eq_none.1 hnot)] at hn
  cases hn

theorem trans {f g k : Forest} (hf : f.Coherent) (h : f.Succeeds g) (h' : g.Succeeds k) :
    f.Succeeds k where
  next := Nat.le_trans h.next h'.next
  gone hlt hn := h'.gone (Nat.lt_of_lt_of_le hlt h.next) (h.gone hlt hn)
  forgotten hlt hn := h'.forgotten (Nat.lt_of_lt_of_le hlt h.next) (h.forgotten hlt hn)
  lists {p c} hc hp := by
    have hlt := Nat.lt_of_lt_of_le (hf.lt_next hc.isSome) h.next
    rcases h.lists hc (h'.isSome hlt hp) with hc' | hgone
    · exact h'.lists hc' hp
    · exact Or.inr (h'.forgotten (Nat.lt_of_lt_of_le (hf.given hc) h.next) hgone)

end Succeeds

/-! ## Changing a node -/

theorem isSome_adjust (f : Forest) (n m : NodeId) (change : Node → Node) :
    ((f.adjust n change).get? m).isSome = (f.get? m).isSome := by
  rw [get?_adjust]
  split <;> simp

section Adjust

variable {change : Node → Node} (hc : KeepsPlace change) (f : Forest) (n : NodeId)

include hc

theorem lists_adjust_iff {p c : NodeId} : (f.adjust n change).Lists p c ↔ f.Lists p c := by
  rw [lists_iff, lists_iff]
  constructor
  · rintro ⟨x, hx, hmem⟩
    obtain ⟨y, hy, -, -, hch⟩ := hc.get? hx
    exact ⟨y, hy, hch ▸ hmem⟩
  · rintro ⟨y, hy, hmem⟩
    obtain ⟨x, hx, -, -, hch⟩ := hc.get?_of n hy
    exact ⟨x, hx, hch ▸ hmem⟩

theorem Coherent.adjust {f : Forest} (hf : f.Coherent) : (f.adjust n change).Coherent where
  lt h := hf.lt ((lists_adjust_iff hc f n).1 h)
  once h h' := hf.once ((lists_adjust_iff hc f n).1 h) ((lists_adjust_iff hc f n).1 h')
  nodup h := by
    obtain ⟨y, hy, -, -, hch⟩ := hc.get? h
    exact hch ▸ hf.nodup hy
  sorted := Entries.sorted_adjust hf.sorted n change
  fresh h := by
    obtain ⟨y, hy, -⟩ := hc.get? h
    exact hf.fresh hy
  given h := hf.given ((lists_adjust_iff hc f n).1 h)
  older h hp := by
    obtain ⟨y, hy, -, hpar, -⟩ := hc.get? h
    exact hf.older hy (hpar ▸ hp)
  agree hp hx := by
    obtain ⟨y, hy, -, hpar, -⟩ := hc.get? hx
    rw [isSome_adjust] at hp
    rw [lists_adjust_iff hc, hpar]
    exact hf.agree hp hy

theorem succeeds_adjust : f.Succeeds (f.adjust n change) := by
  have hgone : ∀ {m}, f.get? m = none → (f.adjust n change).get? m = none := by
    intro m hm
    rw [← Option.not_isSome_iff_eq_none, isSome_adjust, hm]
    exact Bool.false_ne_true
  exact ⟨Nat.le_refl _, fun _ hn => hgone hn,
    fun _ hn => ⟨hgone hn.gone, fun p h => hn.unlisted p ((lists_adjust_iff hc f n).1 h)⟩,
    fun h _ => Or.inl ((lists_adjust_iff hc f n).2 h)⟩

end Adjust

/-! ## Growing -/

section Grow

variable {f : Forest} (hf : f.Coherent) (name : String) {parent : Option NodeId}
  (hp : ∀ p, parent = some p → (f.get? p).isSome) (servers : List TransportId)

include hf hp

theorem lists_grow_iff {p c : NodeId} :
    (f.grow name parent servers).2.Lists p c ↔
      f.Lists p c ∨ parent = some p ∧ c = f.next := by
  rw [lists_iff, get?_grow_of hf.fresh name hp, lists_iff]
  by_cases hnew : p = f.next
  · -- the new node lists nothing, and is no parent yet
    subst hnew
    have hnone : f.get? f.next = none :=
      Option.not_isSome_iff_eq_none.1 fun h => Nat.lt_irrefl _ (hf.lt_next h)
    have hpar : parent ≠ some f.next := fun h => Nat.lt_irrefl _ (hf.lt_next (hp _ h))
    simp [hnone, hpar, seedling]
  · rw [if_neg hnew]
    cases hy : f.get? p with
    | none =>
        have hpar : parent ≠ some p := fun h => by simpa [hy] using hp p h
        simp [hpar]
    | some y =>
        by_cases hpar : parent = some p <;> simp [hpar]

theorem Coherent.grow : (f.grow name parent servers).2.Coherent where
  lt h := by
    rcases (lists_grow_iff hf name hp servers).1 h with h | ⟨hpar, rfl⟩
    · exact hf.lt h
    · exact hf.lt_next (hp _ hpar)
  once h h' := by
    -- the new id is listed by its parent only
    rcases (lists_grow_iff hf name hp servers).1 h with h | ⟨hpar, rfl⟩ <;>
      rcases (lists_grow_iff hf name hp servers).1 h' with h' | ⟨hpar', hnew⟩
    · exact hf.once h h'
    · exact absurd (hnew ▸ hf.given h) (Nat.lt_irrefl _)
    · exact absurd (hf.given h') (Nat.lt_irrefl _)
    · exact Option.some.inj (hpar.symm.trans hpar')
  nodup {p y} hy := by
    rw [get?_grow_of hf.fresh name hp] at hy
    split at hy
    · cases hy
      exact List.nodup_nil
    · obtain ⟨z, hz, rfl⟩ := Option.map_eq_some_iff.1 hy
      split
      · refine List.nodup_append.2 ⟨hf.nodup hz, by simp, ?_⟩
        rintro a ha b hb rfl
        have hlt := hf.given (lists_iff.2 ⟨z, hz, ha⟩)
        exact Nat.ne_of_lt hlt (List.mem_singleton.1 hb)
      · exact hf.nodup hz
  sorted := sorted_grow hf.sorted name parent servers
  fresh {m x} hm := by
    rw [get?_grow_of hf.fresh name hp] at hm
    rw [next_grow]
    split at hm
    · next hnew => exact hnew ▸ Nat.lt_succ_self _
    · obtain ⟨y, hy, -⟩ := Option.map_eq_some_iff.1 hm
      exact Nat.lt_succ_of_lt (hf.fresh hy)
  given h := by
    rw [next_grow]
    rcases (lists_grow_iff hf name hp servers).1 h with h | ⟨-, rfl⟩
    · exact Nat.lt_succ_of_lt (hf.given h)
    · exact Nat.lt_succ_self _
  older {c x p} hc hpar := by
    rw [get?_grow_of hf.fresh name hp] at hc
    split at hc
    · next hnew =>
        cases hc
        exact hnew ▸ hf.lt_next (hp p hpar)
    · obtain ⟨y, hy, rfl⟩ := Option.map_eq_some_iff.1 hc
      refine hf.older hy (Eq.trans ?_ hpar)
      split <;> rfl
  agree {p c x} hthere hc := by
    rw [lists_grow_iff hf name hp servers]
    rw [get?_grow_of hf.fresh name hp] at hthere hc
    split at hc
    · next hnew =>
        subst hnew
        cases hc
        have hnot : ¬f.Lists p f.next := fun h => Nat.lt_irrefl _ (hf.given h)
        simp only [hnot, false_or, and_true, seedling]
    · next hold =>
        obtain ⟨y, hy, rfl⟩ := Option.map_eq_some_iff.1 hc
        simp only [hold, and_false, or_false]
        have hparent : ∀ z : Node, (if parent = some c then
            { z with children := z.children ++ [f.next] } else z).parent = z.parent := by
          intro z
          split <;> rfl
        rw [hparent]
        by_cases hnew : p = f.next
        · -- an older node has nothing to do with the new one
          subst hnew
          have hlt := hf.fresh hy
          exact ⟨fun h => absurd (hf.lt h) (Nat.lt_asymm hlt),
            fun h => absurd (hf.older hy h) (Nat.lt_asymm hlt)⟩
        · rw [if_neg hnew] at hthere
          exact hf.agree (by simpa using hthere) hy

theorem succeeds_grow : f.Succeeds (f.grow name parent servers).2 := by
  have hgone : ∀ {m}, m < f.next → f.get? m = none →
      (f.grow name parent servers).2.get? m = none := by
    intro m hlt hm
    rw [get?_grow_of hf.fresh name hp, if_neg (Nat.ne_of_lt hlt), hm]
    rfl
  refine ⟨by rw [next_grow]; exact Nat.le_succ _, hgone, fun hlt hn =>
    ⟨hgone hlt hn.gone, fun p h => ?_⟩,
    fun h _ => Or.inl ((lists_grow_iff hf name hp servers).2 (Or.inl h))⟩
  rcases (lists_grow_iff hf name hp servers).1 h with h | ⟨-, rfl⟩
  · exact hn.unlisted p h
  · exact Nat.lt_irrefl _ hlt

end Grow

/-! ## Uprooting, some time after -/

section Uproot

variable {f g : Forest} (hf : f.Coherent) (hg : g.Coherent) {n : NodeId} {x : Node}
  (hn : f.get? n = some x)

include hf hg hn

theorem get?_uproot_noted (m : NodeId) :
    (g.uproot n x.name x.parent x.children).get? m =
      if m = n then none else (g.get? m).map (movedUp n x m) :=
  get?_uproot_of hg.sorted (fun _ => hf.older hn) (fun _ hc => hf.lt (lists_iff.2 ⟨x, hn, hc⟩))
    (hf.nodup hn) m

theorem isSome_uproot_iff {m : NodeId} :
    ((g.uproot n x.name x.parent x.children).get? m).isSome ↔ m ≠ n ∧ (g.get? m).isSome := by
  rw [get?_uproot_noted hf hg hn]
  split <;> simp [*]

/-- **The lists after uprooting**: the parent that was noted lists the children that were noted, and the
node is out of its list. -/
theorem lists_uproot_iff {p c : NodeId} :
    (g.uproot n x.name x.parent x.children).Lists p c ↔
      p ≠ n ∧ (g.Lists p c ∧ (x.parent = some p → c ≠ n) ∨
        (g.get? p).isSome ∧ x.parent = some p ∧ c ∈ x.children) := by
  rw [lists_iff, get?_uproot_noted hf hg hn, lists_iff]
  by_cases hpn : p = n
  · simp [hpn]
  · cases hy : g.get? p with
    | none => simp [hpn]
    | some y => by_cases hpar : x.parent = some p <;> simp [hpn, hpar, movedUp]

variable (h : f.Succeeds g) (hthere : (g.get? n).isSome)

include h hthere

omit hf in
/-- A child that was noted is listed by no other node. -/
theorem eq_of_noted {p c : NodeId} (hc : c ∈ x.children) (hl : g.Lists p c) : p = n := by
  rcases h.lists (lists_iff.2 ⟨x, hn, hc⟩) hthere with hnc | hgone
  · exact hg.once hl hnc
  · exact absurd hl (hgone.unlisted p)

/-- **Links may be rewritten as they were noted**, as long as the node is still there. -/
theorem Coherent.uproot : (g.uproot n x.name x.parent x.children).Coherent where
  lt {p c} hl := by
    rcases ((lists_uproot_iff hf hg hn).1 hl).2 with ⟨hl, -⟩ | ⟨-, hpar, hc⟩
    · exact hg.lt hl
    · exact Nat.lt_trans (hf.older hn hpar) (hf.lt (lists_iff.2 ⟨x, hn, hc⟩))
  once {p q c} hl hl' := by
    obtain ⟨hp, hl⟩ := (lists_uproot_iff hf hg hn).1 hl
    obtain ⟨hq, hl'⟩ := (lists_uproot_iff hf hg hn).1 hl'
    rcases hl with ⟨hl, -⟩ | ⟨-, hpar, hc⟩ <;> rcases hl' with ⟨hl', -⟩ | ⟨-, hpar', hc'⟩
    · exact hg.once hl hl'
    · exact absurd (eq_of_noted hg hn h hthere hc' hl) hp
    · exact absurd (eq_of_noted hg hn h hthere hc hl') hq
    · exact Option.some.inj (hpar.symm.trans hpar')
  nodup {p y} hy := by
    rw [get?_uproot_noted hf hg hn] at hy
    split at hy
    · cases hy
    · next hpn =>
        obtain ⟨z, hz, rfl⟩ := Option.map_eq_some_iff.1 hy
        dsimp only [movedUp]
        split
        · -- what was noted is not in the list yet
          refine List.nodup_append.2 ⟨(hg.nodup hz).filter _, hf.nodup hn, ?_⟩
          rintro a ha b hb rfl
          have hl := lists_iff.2 ⟨z, hz, (List.mem_filter.1 ha).1⟩
          exact hpn (eq_of_noted hg hn h hthere hb hl)
        · exact hg.nodup hz
  sorted := sorted_uproot hg.sorted n _ _ _
  fresh {m y} hm := by
    rw [next_uproot]
    have hm := (isSome_uproot_iff hf hg hn).1 (Option.isSome_of_eq_some hm)
    exact hg.lt_next hm.2
  given {p c} hl := by
    rw [next_uproot]
    rcases ((lists_uproot_iff hf hg hn).1 hl).2 with ⟨hl, -⟩ | ⟨-, -, hc⟩
    · exact hg.given hl
    · exact Nat.lt_of_lt_of_le (hf.given (lists_iff.2 ⟨x, hn, hc⟩)) h.next
  older {c y p} hc hpar := by
    rw [get?_uproot_noted hf hg hn] at hc
    split at hc
    · cases hc
    · obtain ⟨z, hz, rfl⟩ := Option.map_eq_some_iff.1 hc
      dsimp only [movedUp] at hpar
      split at hpar
      · next hmem =>
          exact Nat.lt_trans (hf.older hn hpar) (hf.lt (lists_iff.2 ⟨x, hn, hmem⟩))
      · exact hg.older hz hpar
  agree {p c y} hp hc := by
    obtain ⟨hpn, hp⟩ := (isSome_uproot_iff hf hg hn).1 hp
    rw [lists_uproot_iff hf hg hn]
    rw [get?_uproot_noted hf hg hn] at hc
    split at hc
    · cases hc
    · next hcn =>
        obtain ⟨z, hz, rfl⟩ := Option.map_eq_some_iff.1 hc
        dsimp only [movedUp]
        by_cases hmem : c ∈ x.children
        · -- a child that was noted comes to the parent that was noted
          have hnot : ¬g.Lists p c := fun hl => hpn (eq_of_noted hg hn h hthere hmem hl)
          simp [hpn, hp, hmem, hnot]
        · simp only [hmem, if_false, and_false, or_false]
          rw [← hg.agree hp hz]
          exact ⟨fun hl => hl.2.1, fun hl => ⟨hpn, hl, fun _ => hcn⟩⟩

/-- **Nothing comes back by it**: what is in the lists that were noted was listed then. -/
theorem succeeds_uproot : f.Succeeds (g.uproot n x.name x.parent x.children) := by
  have hgone : ∀ {m}, g.get? m = none →
      (g.uproot n x.name x.parent x.children).get? m = none := by
    intro m hm
    rw [← Option.not_isSome_iff_eq_none, isSome_uproot_iff hf hg hn, hm]
    exact fun hnot => Bool.false_ne_true hnot.2
  refine ⟨Nat.le_trans h.next (Nat.le_of_eq (next_uproot ..).symm), fun hlt hm => hgone (h.gone hlt hm),
    fun {m} hlt hm => ?_, fun {p c} hl hp => ?_⟩
  · have hm' := h.forgotten hlt hm
    refine ⟨hgone hm'.gone, fun p hl => ?_⟩
    rcases ((lists_uproot_iff hf hg hn).1 hl).2 with ⟨hl, -⟩ | ⟨-, -, hc⟩
    · exact hm'.unlisted p hl
    · exact hm.unlisted n (lists_iff.2 ⟨x, hn, hc⟩)
  · obtain ⟨hpn, hp⟩ := (isSome_uproot_iff hf hg hn).1 hp
    rcases h.lists hl hp with hl' | hc
    · by_cases hcn : c = n
      · -- the node itself was noted with the parent that lists it
        subst hcn
        have hpar := (hf.agree hl.isSome hn).1 hl
        refine Or.inr ⟨by simp [get?_uproot_noted hf hg hn], fun q hq => ?_⟩
        rcases ((lists_uproot_iff hf hg hn).1 hq).2 with ⟨hq, hne⟩ | ⟨-, -, hc⟩
        · exact hne (hg.once hq hl' ▸ hpar) rfl
        · exact Nat.lt_irrefl _ (hf.lt (lists_iff.2 ⟨x, hn, hc⟩))
      · exact Or.inl ((lists_uproot_iff hf hg hn).2 ⟨hpn, Or.inl ⟨hl', fun _ => hcn⟩⟩)
    · refine Or.inr ⟨hgone hc.gone, fun q hq => ?_⟩
      rcases ((lists_uproot_iff hf hg hn).1 hq).2 with ⟨hq, -⟩ | ⟨-, -, hmem⟩
      · exact hc.unlisted q hq
      · exact hpn (hf.once hl (lists_iff.2 ⟨x, hn, hmem⟩))

end Uproot

end ObjectBus.Forest
