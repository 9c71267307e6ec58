import ObjectBus.Proofs.Bus.Withdrawal

/-!
# Making registrations

What a node has is registered when something is attached to it, when it is bound, and when it has
moved. `Bus.Restores N` says what such work does to the registries: it registers nothing but the
pairs of `N`, it takes nothing from a live node, and it does register a pair of `N` wherever the
address is not contested. A contested address goes to the node that was there first.

What is managed at an address has no owner. There the last node that speaks decides
(`managed?_restoreAll`).
-/

set_option autoImplicit false

namespace ObjectBus.Bus

/-- **Something is registered**: at most the pairs of `N`, and all of them that nobody contests;
and what is registered for live nodes stays. -/
structure Restores (N : TransportId → Address → String → NodeId → Prop) (b b' : Bus) : Prop where
  called : b.Called b'
  only : ∀ {t a k o}, b'.Registered t a k o →
    b.Registered t a k o ∨ ∃ n, o = some n ∧ N t a k n
  keeps : ∀ {t a k m}, b.Registered t a k (some m) → b.isLiveNode m = true →
    b'.Registered t a k (some m)
  complete : ∀ {t a k n}, N t a k n → b.isLiveNode n = true → (b.loopback? t).isSome = true →
    (∀ k' o, b.Registered t a k' o → o = some n) → (∀ k' n', N t a k' n' → n' = n) →
    b'.Registered t a k (some n)

theorem Called.loopback?_isSome {b b' : Bus} (h : b.Called b') (t : TransportId) :
    (b'.loopback? t).isSome = (b.loopback? t).isSome := by
  have ht := h.transport? t
  unfold Bus.loopback?
  cases hs : b.transport? t with
  | none =>
      rw [hs] at ht
      generalize b'.transport? t = s' at ht
      cases ht
      rfl
  | some s =>
      rw [hs] at ht
      generalize b'.transport? t = s' at ht
      cases ht with
      | @some s s' ht => cases s <;> cases s' <;> first | rfl | exact absurd ht id

namespace Restores

variable {N N' : TransportId → Address → String → NodeId → Prop}

theorem refl (b : Bus) : Restores (fun _ _ _ _ => False) b b where
  called := Called.refl b
  only hr := Or.inl hr
  keeps hr _ := hr
  complete hN := hN.elim

theorem congr {b b' : Bus} (h : Restores N b b') (hN : ∀ t a k n, N' t a k n ↔ N t a k n) :
    Restores N' b b' where
  called := h.called
  only hr := by simpa only [hN] using h.only hr
  keeps := h.keeps
  complete hp hlive hl hold hnew :=
    h.complete ((hN _ _ _ _).1 hp) hlive hl hold fun k' n' h' => hnew k' n' ((hN _ _ _ _).2 h')

theorem trans {b b' b'' : Bus} (h : Restores N b b') (h' : Restores N' b' b'') :
    Restores (fun t a k n => N t a k n ∨ N' t a k n) b b'' where
  called := h.called.trans h'.called
  only hr := by
    rcases h'.only hr with hr | ⟨n, rfl, hN⟩
    · rcases h.only hr with hr | ⟨n, rfl, hN⟩
      · exact Or.inl hr
      · exact Or.inr ⟨n, rfl, Or.inl hN⟩
    · exact Or.inr ⟨n, rfl, Or.inr hN⟩
  keeps hr hlive := h'.keeps (h.keeps hr hlive) (by rw [h.called.isLiveNode, hlive])
  complete {t a k n} hp hlive hl hold hnew := by
    have hlive' : b'.isLiveNode n = true := by rw [h.called.isLiveNode, hlive]
    rcases hp with hN | hN
    · exact h'.keeps (h.complete hN hlive hl hold fun k' n' hN' => hnew k' n' (Or.inl hN')) hlive'
    · refine h'.complete hN hlive' (by rw [h.called.loopback?_isSome, hl]) ?_
        fun k' n' hN' => hnew k' n' (Or.inr hN')
      intro k' o hr
      rcases h.only hr with hr | ⟨n', rfl, hN'⟩
      · exact hold k' o hr
      · rw [hnew k' n' (Or.inl hN')]

theorem foldl {ι : Type} {N : ι → TransportId → Address → String → NodeId → Prop}
    {step : Bus → ι → Bus} {b : Bus} (hb : b.Orderly) (xs : List ι)
    (hstep : ∀ x ∈ xs, ∀ b', b.Called b' → b'.Orderly → Restores (N x) b' (step b' x)) :
    Restores (fun t a k n => ∃ x ∈ xs, N x t a k n) b (xs.foldl step b) := by
  induction xs generalizing b with
  | nil => exact (refl b).congr (by simp)
  | cons x xs ih =>
      have hx := hstep x List.mem_cons_self b (Called.refl b) hb
      have hxs := ih (hx.called.orderly hb) fun y hy b' hcalled =>
        hstep y (List.mem_cons_of_mem x hy) b' (hx.called.trans hcalled)
      exact (hx.trans hxs).congr (by simp)

/-- A call that leaves the registries alone. -/
theorem of_same {b b' : Bus} (hcalled : b.Called b')
    (h : ∀ t a k o, b'.Registered t a k o ↔ b.Registered t a k o) :
    Restores (fun _ _ _ _ => False) b b' where
  called := hcalled
  only hr := Or.inl ((h _ _ _ _).1 hr)
  keeps hr _ := (h _ _ _ _).2 hr
  complete hN := hN.elim

end Restores

variable {b : Bus} (hb : b.Orderly) (h : Host)

include hb

theorem called_callAdd (t : TransportId) (n : NodeId) (k : String) :
    b.Called (b.callAdd h t n k).2 := by
  cases ht : b.transport? t with
  | none => rw [callAdd_of_none h ht]; exact Called.refl b
  | some s =>
      rcases callAdd_spec hb h ht n k with ⟨s', -, -, hsets⟩ | ⟨e, -, -, hsets⟩
      · exact hsets.called
      · exact hsets.called

/-- A registration changes one registry, or none. -/
theorem callAdd_loopbacks (t : TransportId) (n : NodeId) (k : String) :
    (∀ t', (b.callAdd h t n k).2.loopback? t' = b.loopback? t') ∨
      ∃ l a l', b.loopback? t = some l ∧ b.addressOn n t = some a ∧
        l.register b.isLiveNode a ((b.node? n).map fun _ => n) k = .ok l' ∧
        ∀ t', (b.callAdd h t n k).2.loopback? t' = if t' = t then some l' else b.loopback? t' := by
  cases ht : b.transport? t with
  | none => rw [callAdd_of_none h ht]; exact Or.inl fun _ => rfl
  | some s =>
      cases s with
      | recorder r =>
          have hnone := loopback?_of_recorder ht
          rcases callAdd_spec hb h ht n k with ⟨s', hs', -, hsets⟩ | ⟨e, -, -, hsets⟩
          · obtain ⟨r', -, rfl⟩ := Transport.added_recorder hs'
            exact Or.inl (hsets.loopback?_recorder hnone rfl)
          · exact Or.inl (hsets.loopback?_recorder hnone rfl)
      | loopback l =>
          have hl := loopback?_of_transport? ht
          rcases callAdd_spec hb h ht n k with ⟨s', hs', -, hsets⟩ | ⟨e, -, -, hsets⟩
          · obtain ⟨a, l', ha, hreg, rfl⟩ := Transport.added_loopback hs'
            exact Or.inr ⟨l, a, l', hl, ha, hreg, hsets.loopback? rfl⟩
          · refine Or.inl fun t' => ?_
            rw [hsets.loopback? rfl]
            split
            · next htt => rw [htt, hl]
            · rfl

theorem managed?_callAdd (t : TransportId) (n : NodeId) (k : String) (t' : TransportId)
    (a : Address) : (b.callAdd h t n k).2.managed? t' a = b.managed? t' a := by
  rcases callAdd_loopbacks hb h t n k with hsame | ⟨l, c, l', hl, -, hreg, hget⟩
  · exact managed?_congr hsame t' a
  · unfold managed?
    rw [hget]
    split
    · next htt => simp [htt, hl, Loopback.managed_register hreg]
    · rfl

/-- A call that was accepted registers. -/
theorem registered_callAdd {t : TransportId} {n : NodeId} {k : String} {a : Address}
    (hn : (b.node? n).isSome = true) (ha : b.addressOn n t = some a)
    (hl : (b.loopback? t).isSome = true) (hok : (b.callAdd h t n k).1 = .ok ()) :
    (b.callAdd h t n k).2.Registered t a k (some n) := by
  obtain ⟨l, hl⟩ := Option.isSome_iff_exists.1 hl
  obtain ⟨x, hx⟩ := Option.isSome_iff_exists.1 hn
  rcases callAdd_spec hb h (transport?_of_loopback? hl) n k with
    ⟨s', hs', -, hsets⟩ | ⟨e, -, herr, -⟩
  · obtain ⟨c, l', hc, hreg, rfl⟩ := Transport.added_loopback hs'
    rw [addressOn, hc, Option.some.injEq] at ha
    subst ha
    rw [hx] at hreg
    exact ⟨l', by rw [hsets.loopback? rfl, if_pos rfl], Loopback.registers_register_self hreg⟩
  · rw [herr] at hok
    cases hok

/-- A call that was refused was refused by the registry, and has left all of them as they were. -/
theorem refused_callAdd {t : TransportId} {n : NodeId} {k : String} {a : Address} {l : Loopback}
    {e : BusError} (hn : (b.node? n).isSome = true) (ha : b.addressOn n t = some a)
    (hl : b.loopback? t = some l) (herr : (b.callAdd h t n k).1 = .error e) :
    l.register b.isLiveNode a (some n) k = .error e ∧
      ∀ u, (b.callAdd h t n k).2.loopback? u = b.loopback? u := by
  obtain ⟨x, hx⟩ := Option.isSome_iff_exists.1 hn
  rcases callAdd_spec hb h (transport?_of_loopback? hl) n k with
    ⟨s', -, hok, -⟩ | ⟨e', he', herr', hsets⟩
  · rw [hok] at herr
    cases herr
  · rw [herr', Except.error.injEq] at herr
    subst herr
    refine ⟨?_, fun u => ?_⟩
    · rw [addressOn, readAddress_eq_some] at ha
      simp only [Transport.added, ha, hx, Option.map_some] at he'
      cases hreg : l.register b.isLiveNode a (some n) k with
      | error e => rw [hreg] at he'; simpa [Except.map] using he'
      | ok l' => rw [hreg] at he'; simp [Except.map] at he'
    · rw [hsets.loopback? rfl]
      split
      · next hut => rw [hut, hl]
      · rfl

/-- **One registration**, of a node that is there. -/
theorem restores_callAdd (t : TransportId) {n : NodeId} (hn : (b.node? n).isSome = true)
    (k : String) :
    Restores (fun t' a k' n' => t' = t ∧ b.addressOn n t = some a ∧ k' = k ∧ n' = n) b
      (b.callAdd h t n k).2 := by
  obtain ⟨x, hx⟩ := Option.isSome_iff_exists.1 hn
  refine ⟨called_callAdd hb h t n k, ?_, ?_, ?_⟩
  · -- what is registered afterwards was there, or it is the pair that was asked for
    intro t' a k' o hr
    rcases callAdd_loopbacks hb h t n k with hsame | ⟨l, c, l', hl, hc, hreg, hget⟩
    · exact Or.inl ((registered_congr hsame t' a k' o).1 hr)
    · obtain ⟨l'', hl'', hr⟩ := hr
      rw [hget] at hl''
      split at hl''
      · next htt =>
          subst htt
          cases hl''
          rw [hx] at hreg
          rcases Loopback.registers_of_register hreg hr with hold | ⟨rfl, rfl, rfl⟩
          · exact Or.inl ⟨l, hl, hold⟩
          · exact Or.inr ⟨n, rfl, rfl, hc, rfl, rfl⟩
      · exact Or.inl ⟨l'', hl'', hr⟩
  · -- the registrations of a live node stay
    intro t' a k' m hr hlive
    rcases callAdd_loopbacks hb h t n k with hsame | ⟨l, c, l', hl, hc, hreg, hget⟩
    · exact (registered_congr hsame t' a k' _).2 hr
    · obtain ⟨l'', hl'', hr⟩ := hr
      unfold Registered
      rw [hget]
      split
      · next htt =>
          subst htt
          rw [hl] at hl''
          cases hl''
          exact ⟨l', rfl, hr.register hlive hreg⟩
      · exact ⟨l'', hl'', hr⟩
  · rintro t' a k' n' ⟨rfl, ha, rfl, rfl⟩ - hl hold -
    obtain ⟨l, hl⟩ := Option.isSome_iff_exists.1 hl
    cases hres : (b.callAdd h t' n' k').1 with
    | ok u => exact registered_callAdd hb h hn ha (by rw [hl]; rfl) hres
    | error e =>
        -- a refusal at an address that is not contested means that the name is there already
        obtain ⟨hreg, hsame⟩ := refused_callAdd hb h hn ha hl hres
        rcases Loopback.register_error (hb.loopbacks t' l hl) hreg with hr | ⟨o, k'', hne, hr⟩
        · exact ⟨l, (hsame t').trans hl, hr⟩
        · exact absurd (hold k'' o ⟨l, hl, hr⟩) hne

/-! ## Descendants that have moved -/

/-- Where a descendant manages something is decidable. -/
instance (b : Bus) (m : Relocation) (t : TransportId) (a : Address) : Decidable (m.Marks b t a) :=
  inferInstanceAs (Decidable (_ ∧ _ ∧ _))

/-- The names of a descendant are registered, one after the other. -/
theorem restores_callAddAll (t : TransportId) {n : NodeId} (hn : (b.node? n).isSome = true)
    (is : List InterfaceId) :
    Restores (fun t' a k n' => t' = t ∧ b.addressOn n t = some a ∧ n' = n ∧
        ∃ i ∈ is, b.nameOf i = k) b
      (is.foldl (fun b i => (b.callAdd h t n (b.nameOf i)).2) b) := by
  refine (Restores.foldl hb is
    (N := fun i t' a k n' => t' = t ∧ b.addressOn n t = some a ∧ k = b.nameOf i ∧ n' = n)
    fun i _ b' hcalled hb' => ?_).congr ?_
  · refine (restores_callAdd hb' h t (by rw [hcalled.node?, hn]) (b'.nameOf i)).congr ?_
    intro t' a k n'
    rw [hcalled.addressOn, hcalled.nameOf]
  · intro t' a k n'
    constructor
    · rintro ⟨rfl, ha, rfl, i, hi, rfl⟩
      exact ⟨i, hi, rfl, ha, rfl, rfl⟩
    · rintro ⟨i, hi, rfl, ha, rfl, rfl⟩
      exact ⟨rfl, ha, rfl, i, hi, rfl⟩

theorem managed?_callAddAll (t : TransportId) (n : NodeId) (is : List InterfaceId)
    (t' : TransportId) (a : Address) :
    (is.foldl (fun b i => (b.callAdd h t n (b.nameOf i)).2) b).managed? t' a =
      b.managed? t' a := by
  induction is generalizing b with
  | nil => rfl
  | cons i is ih =>
      rw [List.foldl_cons, ih ((called_callAdd hb h t n _).orderly hb), managed?_callAdd hb h]

theorem restores_restoreOn (m : Relocation) (hn : (b.node? m.node).isSome = true)
    (t : TransportId) :
    Restores (fun t' a k n => t' = t ∧ b.addressOn m.node t = some a ∧ n = m.node ∧
        ∃ i ∈ m.interfaces, b.nameOf i = k) b
      (b.restoreOn h m t) := by
  have hadd := restores_callAddAll hb h t hn m.interfaces
  have hb' := hadd.called.orderly hb
  unfold restoreOn
  split
  · refine (hadd.trans (Restores.of_same (called_callManage hb' h t m.node m.managing)
      (registered_callManage hb' h t m.node m.managing))).congr (by simp)
  · exact hadd

theorem managed?_restoreOn (m : Relocation) (hn : (b.node? m.node).isSome = true)
    (t t' : TransportId) (a : Address) :
    (b.restoreOn h m t).managed? t' a =
      if m.managing.isSome = true ∧ t' = t ∧ b.addressOn m.node t = some a ∧
        (b.loopback? t).isSome = true then m.managing else b.managed? t' a := by
  have hadd := restores_callAddAll hb h t hn m.interfaces
  unfold restoreOn
  split
  · next hm =>
      rw [managed?_callManage (hadd.called.orderly hb) h, managed?_callAddAll hb h,
        hadd.called.addressOn, hadd.called.loopback?_isSome]
      simp [hm]
  · next hm =>
      rw [managed?_callAddAll hb h]
      simp [hm]

/-- **A descendant comes to its new address.** -/
theorem restores_restore (m : Relocation) (hn : (b.node? m.node).isSome = true) :
    Restores (fun t a k n => m.Holds b t a k ∧ n = m.node) b (b.restore h m) := by
  refine (Restores.foldl hb m.servers
    (N := fun t t' a k n => t' = t ∧ b.addressOn m.node t = some a ∧ n = m.node ∧
      ∃ i ∈ m.interfaces, b.nameOf i = k)
    fun t _ b' hcalled hb' => ?_).congr ?_
  · refine (restores_restoreOn hb' h m (by rw [hcalled.node?, hn]) t).congr ?_
    intro t' a k n
    simp only [hcalled.addressOn, hcalled.nameOf]
  · intro t a k n
    constructor
    · rintro ⟨⟨ht, ha, hk⟩, rfl⟩
      exact ⟨t, ht, rfl, ha, rfl, hk⟩
    · rintro ⟨_, ht, rfl, ha, rfl, hk⟩
      exact ⟨⟨ht, ha, hk⟩, rfl⟩

theorem managed?_restoreOnAll (m : Relocation) (hn : (b.node? m.node).isSome = true)
    {t : TransportId} (hl : (b.loopback? t).isSome = true) (a : Address)
    (ts : List TransportId) :
    (ts.foldl (fun b t => b.restoreOn h m t) b).managed? t a =
      if m.managing.isSome = true ∧ t ∈ ts ∧ b.addressOn m.node t = some a then m.managing
      else b.managed? t a := by
  induction ts generalizing b with
  | nil => simp
  | cons t' ts ih =>
      have hon := restores_restoreOn hb h m hn t'
      rw [List.foldl_cons, ih (hon.called.orderly hb) (by rw [hon.called.node?, hn])
        (by rw [hon.called.loopback?_isSome, hl]), managed?_restoreOn hb h m hn,
        hon.called.addressOn]
      by_cases htt : t = t'
      · subst htt
        by_cases hmark : m.managing.isSome = true ∧ b.addressOn m.node t = some a
        · simp [hmark, hl]
        · have hnot : ∀ p : Prop, ¬(m.managing.isSome = true ∧ p ∧ b.addressOn m.node t = some a) :=
            fun p hp => hmark ⟨hp.1, hp.2.2⟩
          rw [if_neg (hnot _), if_neg (hnot _), if_neg fun hp => hmark ⟨hp.1, hp.2.2.1⟩]
      · simp [htt]

theorem managed?_restore (m : Relocation) (hn : (b.node? m.node).isSome = true)
    {t : TransportId} (hl : (b.loopback? t).isSome = true) (a : Address) :
    (b.restore h m).managed? t a = if m.Marks b t a then m.managing else b.managed? t a :=
  managed?_restoreOnAll hb h m hn hl a m.servers

theorem restores_restoreAll (ms : List Relocation)
    (hms : ∀ m ∈ ms, (b.node? m.node).isSome = true) :
    Restores (fun t a k n => ∃ m ∈ ms, m.Holds b t a k ∧ n = m.node) b
      (ms.foldl (fun b m => b.restore h m) b) := by
  refine Restores.foldl hb ms fun m hm b' hcalled hb' => ?_
  refine (restores_restore hb' h m (by rw [hcalled.node?, hms m hm])).congr fun t a k n => ?_
  rw [hcalled.holds_iff]

/-- **The last one to come decides** what is managed at an address. -/
theorem managed?_restoreAll (ms : List Relocation)
    (hms : ∀ m ∈ ms, (b.node? m.node).isSome = true) {t : TransportId}
    (hl : (b.loopback? t).isSome = true) (a : Address) :
    (ms.foldl (fun b m => b.restore h m) b).managed? t a =
      match (ms.filter fun m => decide (m.Marks b t a)).getLast? with
      | some m => m.managing
      | none => b.managed? t a := by
  induction ms generalizing b with
  | nil => rfl
  | cons m ms ih =>
      have hm := hms m List.mem_cons_self
      have hcalled := (restores_restore hb h m hm).called
      rw [List.foldl_cons, ih (hcalled.orderly hb)
        (fun m' hm' => by rw [hcalled.node?, hms m' (List.mem_cons_of_mem m hm')])
        (by rw [hcalled.loopback?_isSome, hl]), managed?_restore hb h m hm hl]
      simp only [hcalled.marks_iff]
      by_cases hmark : m.Marks b t a
      · rw [List.filter_cons_of_pos (by simpa using hmark), List.getLast?_cons, if_pos hmark]
        cases (ms.filter fun m => decide (m.Marks b t a)).getLast? <;> rfl
      · rw [List.filter_cons_of_neg (by simpa using hmark), if_neg hmark]

end ObjectBus.Bus
