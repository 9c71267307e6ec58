import ObjectBus.Proofs.Bus.Registering

/-!
# Who gets a contested address

An address belongs to the live node that was there first: no request of another node takes it, whether
the request is accepted or rolled back (`registered_registerEach`). A node that asks for an address at
which no other live node has a name is never refused, for what a dead node has left there gives way
(`Bus.Grants`). Asking for the same name again is refused, but then the name is there already.
-/

set_option autoImplicit false

namespace ObjectBus

namespace Loopback

variable {l : Loopback} {isLive : NodeId → Bool} {a : Address} {n : Option NodeId} {k : String}

/-- **A registration is refused** only where the node has the name already, or another live node has
one. -/
theorem refused_by (hl : l.Orderly) {e : BusError} (h : l.register isLive a n k = .error e) :
    l.Registers a k n ∨ ∃ m k', some m ≠ n ∧ isLive m = true ∧ l.Registers a k' (some m) := by
  unfold register at h
  cases hr : l.registry.get? a with
  | none => rw [hr] at h; cases h
  | some r =>
      rw [hr] at h
      simp only at h
      split at h
      · next hne =>
          split at h
          · next hheld =>
              rw [Bool.and_eq_true, Option.any_eq_true] at hheld
              obtain ⟨⟨m, hm, hlive⟩, -⟩ := hheld
              obtain ⟨k', hk'⟩ := hl.exists_registers hr
              exact Or.inr ⟨m, k', hm ▸ hne, hlive, hm ▸ hk'⟩
          · cases h
      · next heq =>
          split at h
          · next hk => exact Or.inl ⟨r, hr, by simpa using heq, hk⟩
          · cases h

/-- **A name of a live node is taken**: nobody registers it again, the node itself included. -/
theorem not_register_of_registers {m : NodeId} (hm : l.Registers a k (some m))
    (hlive : isLive m = true) {l' : Loopback} : l.register isLive a n k ≠ .ok l' := by
  intro h
  obtain ⟨r, hr, hnode, hk⟩ := hm
  rcases register_ok h with ⟨-, hfree⟩ | ⟨r', hr', -, hnot, -⟩
  · have hgone := (hfree r hr).2
    simp [hnode, hlive, Members.ne_nil_of_has hk] at hgone
  · rw [hr, Option.some.injEq] at hr'
    rw [← hr', hk] at hnot
    cases hnot

end Loopback

namespace Bus

/-! ## What is not taken -/

/-- Dropping names in turn takes away these names. -/
theorem withdraws_dropEach {b : Bus} (hb : b.Orderly) (h : Host) (n : NodeId)
    (cs : List (TransportId × String)) :
    Withdraws (fun t a k => (t, k) ∈ cs ∧ b.addressOn n t = some a) (fun _ _ => False) b
      (b.dropEach h n cs) := by
  refine (Withdraws.foldl hb cs
    (S := fun c t a k => t = c.1 ∧ b.addressOn n c.1 = some a ∧ k = c.2)
    (C := fun _ _ _ => False) fun c _ b' hcalled hb' => ?_).congr (fun t a k => ?_) (by simp)
  · refine (withdraws_dropAt hb' h c.1 (b'.addressText n c.1) c.2).congr (fun t a k => ?_)
      fun _ _ => Iff.rfl
    rw [addressOn, hcalled.addressText]
  · constructor
    · rintro ⟨hc, ha⟩
      exact ⟨(t, k), hc, rfl, ha, rfl⟩
    · rintro ⟨c, hc, rfl, ha, rfl⟩
      exact ⟨hc, ha⟩

/-- Nobody is given a name that a live node has. -/
theorem not_callAdd_of_registered {b : Bus} (hb : b.Orderly) (h : Host) {t : TransportId}
    {a : Address} {k : String} {m n : NodeId} (hr : b.Registered t a k (some m))
    (hm : b.isLiveNode m = true) (ha : b.addressOn n t = some a) :
    (b.callAdd h t n k).1 ≠ .ok () := by
  obtain ⟨l, hl, hr⟩ := hr
  intro hok
  rcases callAdd_spec hb h (transport?_of_loopback? hl) n k with
    ⟨s', hs', -, -⟩ | ⟨e, -, herr, -⟩
  · obtain ⟨c, l', hc, hreg, -⟩ := Transport.added_loopback hs'
    rw [addressOn, hc, Option.some.injEq] at ha
    exact Loopback.not_register_of_registers (ha ▸ hr) hm hreg
  · rw [herr] at hok
    cases hok

/-- **A request takes nothing from a live node**, whether it is accepted or rolled back, except what
it had registered itself before. -/
theorem registered_registerEach {b : Bus} (hb : b.Orderly) (h : Host) {n m : NodeId}
    (hn : (b.node? n).isSome = true) {cs done : List (TransportId × String)} {t : TransportId}
    {a : Address} {k : String} (hr : b.Registered t a k (some m)) (hm : b.isLiveNode m = true)
    (hdone : ¬((t, k) ∈ done ∧ b.addressOn n t = some a)) :
    (b.registerEach h n done cs).2.Registered t a k (some m) := by
  induction cs generalizing b done with
  | nil => exact hr
  | cons c cs ih =>
      have hadd := restores_callAdd hb h c.1 hn c.2
      have hcalled := hadd.called
      have hrefused := fun ha => not_callAdd_of_registered hb h (n := n) hr hm ha
      rw [registerEach]
      cases hres : b.callAdd h c.1 n c.2 with
      | mk result b' =>
          rw [hres] at hadd hcalled
          have hr' := hadd.keeps hr hm
          cases result with
          | ok u =>
              refine ih (hcalled.orderly hb) (by rw [hcalled.node?, hn]) hr'
                (by rw [hcalled.isLiveNode, hm]) ?_
              rw [hcalled.addressOn, List.mem_cons]
              rintro ⟨heq | hmem, ha⟩
              · -- the name that was just registered is not one of a live node
                obtain ⟨rfl, rfl⟩ := Prod.ext_iff.1 heq
                exact hrefused ha (congrArg Prod.fst hres)
              · exact hdone ⟨hmem, ha⟩
          | error e =>
              refine ((withdraws_dropEach (hcalled.orderly hb) h n done).registered t a k _).2
                ⟨hr', ?_⟩
              rwa [hcalled.addressOn]

/-- A node that is accepted on a loopback transport has an address there. -/
theorem addressOn_of_callAdd {b : Bus} (hb : b.Orderly) (h : Host) {t : TransportId} {n : NodeId}
    {k : String} (hok : (b.callAdd h t n k).1 = .ok ()) (hl : (b.loopback? t).isSome = true) :
    ∃ a, b.addressOn n t = some a := by
  obtain ⟨l, hl⟩ := Option.isSome_iff_exists.1 hl
  rcases callAdd_spec hb h (transport?_of_loopback? hl) n k with
    ⟨s', hs', -, -⟩ | ⟨e, -, herr, -⟩
  · obtain ⟨a, -, ha, -⟩ := Transport.added_loopback hs'
    exact ⟨a, ha⟩
  · rw [herr] at hok
    cases hok

theorem addressOn_of_registerEach {b : Bus} (hb : b.Orderly) (h : Host) {n : NodeId}
    {cs done : List (TransportId × String)} (hok : (b.registerEach h n done cs).1 = .ok ())
    {c : TransportId × String} (hc : c ∈ cs) (hl : (b.loopback? c.1).isSome = true) :
    ∃ a, b.addressOn n c.1 = some a := by
  induction cs generalizing b done with
  | nil => cases hc
  | cons d cs ih =>
      have hcalled := called_callAdd hb h d.1 n d.2
      have haddress := fun hok => addressOn_of_callAdd hb h (t := d.1) (n := n) (k := d.2) hok
      rw [registerEach] at hok
      cases hres : b.callAdd h d.1 n d.2 with
      | mk result b' =>
          simp only [hres] at hok hcalled haddress
          cases result with
          | error e => cases hok
          | ok u =>
              rcases List.mem_cons.1 hc with rfl | hc
              · exact haddress rfl hl
              · have hrest := ih (hcalled.orderly hb) hok hc (by rw [hcalled.loopback?_isSome, hl])
                simpa only [hcalled.addressOn] using hrest

/-! ## What is granted -/

/-- **An address is left to a node**: no other live node has a name there. -/
def Cedes (b : Bus) (t : TransportId) (a : Address) (n : NodeId) : Prop :=
  ∀ k m, b.Registered t a k (some m) → b.isLiveNode m = true → m = n

/-- **A node registers the names of `N`**, and is granted all of them at addresses that are left to
it. -/
structure Grants (n : NodeId) (N : TransportId → Address → String → Prop) (b b' : Bus) : Prop where
  restores : Restores (fun t a k m => N t a k ∧ m = n) b b'
  granted : ∀ {t a k}, N t a k → b.isLiveNode n = true → (b.loopback? t).isSome = true →
    b.Cedes t a n → b'.Registered t a k (some n)

/-- Registrations of the node itself leave the address to it. -/
theorem Restores.cedes {N : TransportId → Address → String → NodeId → Prop} {b b' : Bus}
    (h : Restores N b b') {t : TransportId} {a : Address} {n : NodeId}
    (hN : ∀ k m, N t a k m → m = n) (hcedes : b.Cedes t a n) : b'.Cedes t a n := by
  intro k m hr hm
  rw [h.called.isLiveNode] at hm
  rcases h.only hr with hr | ⟨m', heq, hN'⟩
  · exact hcedes k m hr hm
  · obtain rfl := Option.some.inj heq
    exact hN k m hN'

namespace Grants

variable {n : NodeId} {N N' : TransportId → Address → String → Prop} {b b' b'' : Bus}

theorem congr (h : Grants n N b b') (hN : ∀ t a k, N' t a k ↔ N t a k) : Grants n N' b b' where
  restores := h.restores.congr fun t a k m => by rw [hN]
  granted hp := h.granted ((hN _ _ _).1 hp)

theorem trans (h : Grants n N b b') (h' : Grants n N' b' b'') :
    Grants n (fun t a k => N t a k ∨ N' t a k) b b'' where
  restores := (h.restores.trans h'.restores).congr fun t a k m => by rw [or_and_right]
  granted {t a k} hp hlive hl hcedes := by
    have hlive' : b'.isLiveNode n = true := by rw [h.restores.called.isLiveNode, hlive]
    rcases hp with hN | hN
    · exact h'.restores.keeps (h.granted hN hlive hl hcedes) hlive'
    · exact h'.granted hN hlive' (by rw [h.restores.called.loopback?_isSome, hl])
        (h.restores.cedes (fun _ _ hm => hm.2) hcedes)

/-- Calls that leave the registries alone grant nothing. -/
theorem of_restores (h : Restores (fun _ _ _ _ => False) b b') :
    Grants n (fun _ _ _ => False) b b' :=
  ⟨h.congr (by simp), fun hN => hN.elim⟩

theorem foldl {ι : Type} {N : ι → TransportId → Address → String → Prop} {step : Bus → ι → Bus}
    (hb : b.Orderly) (xs : List ι)
    (hstep : ∀ x ∈ xs, ∀ b', b.Called b' → b'.Orderly → Grants n (N x) b' (step b' x)) :
    Grants n (fun t a k => ∃ x ∈ xs, N x t a k) b (xs.foldl step b) := by
  induction xs generalizing b with
  | nil => exact (of_restores (Restores.refl b)).congr (by simp)
  | cons x xs ih =>
      have hx := hstep x List.mem_cons_self b (Called.refl b) hb
      have hxs := ih (hx.restores.called.orderly hb) fun y hy b' hcalled =>
        hstep y (List.mem_cons_of_mem x hy) b' (hx.restores.called.trans hcalled)
      exact (hx.trans hxs).congr (by simp)

end Grants

section Grant

variable {b : Bus} (hb : b.Orderly) (h : Host)

include hb

/-- **One registration** is granted where the address is left to the node. -/
theorem grants_callAdd (t : TransportId) {n : NodeId} (hn : (b.node? n).isSome = true)
    (k : String) :
    Grants n (fun t' a k' => t' = t ∧ b.addressOn n t = some a ∧ k' = k) b
      (b.callAdd h t n k).2 where
  restores := (restores_callAdd hb h t hn k).congr fun _ _ _ _ => by simp only [and_assoc]
  granted := by
    rintro t' a k' ⟨rfl, ha, rfl⟩ hlive hl hcedes
    cases hres : (b.callAdd h t' n k').1 with
    | ok u => exact registered_callAdd hb h hn ha hl hres
    | error e =>
        obtain ⟨l, hl⟩ := Option.isSome_iff_exists.1 hl
        obtain ⟨hreg, hsame⟩ := refused_callAdd hb h hn ha hl hres
        rcases Loopback.refused_by (hb.loopbacks t' l hl) hreg with hr | ⟨m, k'', hne, hm, hr⟩
        · exact ⟨l, (hsame t').trans hl, hr⟩
        · exact absurd (congrArg some (hcedes k'' m ⟨l, hl, hr⟩ hm)) hne

/-- **Names that nobody has registered are accepted**, one after the other: at an address of the node
where only the node itself has names, and none of these. -/
theorem registerEach_ok {n : NodeId} (hn : (b.node? n).isSome = true) {t : TransportId} {a : Address}
    (ha : b.addressOn n t = some a) (hl : (b.loopback? t).isSome = true)
    {cs done : List (TransportId × String)} (hcs : ∀ c ∈ cs, c.1 = t) (hnodup : cs.Nodup)
    (hfree : ∀ c ∈ cs, ∀ k o, b.Registered t a k o → o = some n ∧ k ≠ c.2) :
    (b.registerEach h n done cs).1 = .ok () := by
  induction cs generalizing b done with
  | nil => rfl
  | cons c cs ih =>
      obtain ⟨u, k⟩ := c
      have hut : u = t := hcs (u, k) List.mem_cons_self
      subst u
      have hadd := restores_callAdd hb h t hn k
      have hcalled := hadd.called
      have hrefused : ∀ e, (b.callAdd h t n k).1 ≠ .error e := by
        intro e herr
        obtain ⟨l, hl⟩ := Option.isSome_iff_exists.1 hl
        have hreg := (refused_callAdd hb h hn ha hl herr).1
        rcases Loopback.register_error (hb.loopbacks t l hl) hreg with hr | ⟨o, k', hne, hr⟩
        · exact (hfree (t, k) List.mem_cons_self k _ ⟨l, hl, hr⟩).2 rfl
        · exact hne (hfree (t, k) List.mem_cons_self k' o ⟨l, hl, hr⟩).1
      rw [registerEach]
      cases hres : b.callAdd h t n k with
      | mk answer b' =>
          rw [hres] at hadd hcalled hrefused
          cases answer with
          | error e => exact absurd rfl (hrefused e)
          | ok _ =>
              rw [List.nodup_cons] at hnodup
              refine ih (hcalled.orderly hb) (by rw [hcalled.node?, hn])
                (by rw [hcalled.addressOn, ha]) (by rw [hcalled.loopback?_isSome, hl])
                (fun c hc => hcs c (List.mem_cons_of_mem _ hc)) hnodup.2 fun c hc k' o hr => ?_
              -- what is registered now is what was, and the name that was just accepted
              rcases hadd.only hr with hr | ⟨m, rfl, -, -, rfl, rfl⟩
              · exact hfree c (List.mem_cons_of_mem _ hc) k' o hr
              · refine ⟨rfl, fun heq => hnodup.1 ?_⟩
                have hct : c.1 = t := hcs c (List.mem_cons_of_mem _ hc)
                rwa [heq, ← hct]

theorem grants_restoreOn (m : Relocation) (hn : (b.node? m.node).isSome = true)
    (t : TransportId) :
    Grants m.node (fun t' a k => t' = t ∧ b.addressOn m.node t = some a ∧
        ∃ i ∈ m.interfaces, b.nameOf i = k) b (b.restoreOn h m t) := by
  have hadd : Grants m.node (fun t' a k => t' = t ∧ b.addressOn m.node t = some a ∧
      ∃ i ∈ m.interfaces, b.nameOf i = k) b
      (m.interfaces.foldl (fun b i => (b.callAdd h t m.node (b.nameOf i)).2) b) := by
    refine (Grants.foldl hb m.interfaces
      (N := fun i t' a k => t' = t ∧ b.addressOn m.node t = some a ∧ k = b.nameOf i)
      fun i _ b' hcalled hb' => ?_).congr fun t' a k => ?_
    · refine (grants_callAdd hb' h t (by rw [hcalled.node?, hn]) (b'.nameOf i)).congr ?_
      intro t' a k
      rw [hcalled.addressOn, hcalled.nameOf]
    · constructor
      · rintro ⟨rfl, ha, i, hi, rfl⟩
        exact ⟨i, hi, rfl, ha, rfl⟩
      · rintro ⟨i, hi, rfl, ha, rfl⟩
        exact ⟨rfl, ha, i, hi, rfl⟩
  have hb' := hadd.restores.called.orderly hb
  unfold restoreOn
  split
  · have hmanage := Grants.of_restores (n := m.node)
      (Restores.of_same (called_callManage hb' h t m.node m.managing)
        (registered_callManage hb' h t m.node m.managing))
    exact (hadd.trans hmanage).congr (by simp)
  · exact hadd

/-- **A moved node is granted** what it had, wherever its new address is left to it. -/
theorem grants_restore (m : Relocation) (hn : (b.node? m.node).isSome = true) :
    Grants m.node (m.Holds b) b (b.restore h m) := by
  refine (Grants.foldl hb m.servers
    (N := fun t t' a k => t' = t ∧ b.addressOn m.node t = some a ∧
      ∃ i ∈ m.interfaces, b.nameOf i = k)
    fun t _ b' hcalled hb' => ?_).congr fun t a k => ?_
  · refine (grants_restoreOn hb' h m (by rw [hcalled.node?, hn]) t).congr fun t' a k => ?_
    simp only [hcalled.addressOn, hcalled.nameOf]
  · constructor
    · rintro ⟨ht, ha, hk⟩
      exact ⟨t, ht, rfl, ha, hk⟩
    · rintro ⟨_, ht, rfl, ha, hk⟩
      exact ⟨ht, ha, hk⟩

end Grant

end Bus

end ObjectBus
