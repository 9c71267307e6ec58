import ObjectBus.Bus.Destroy
import ObjectBus.Proofs.Bus.Calls

/-!
# Withdrawing registrations

Nodes and interface values leave transports in many ways: a name is dropped from a node, a node is
unbound or destroyed, a descendant is about to move. All of them drop names at addresses and clear
what is managed there. `Bus.Withdraws S C` says that exactly the pairs of `S` were dropped and
exactly the addresses of `C` were cleared.

A transport knows addresses and names only. So a pair that is dropped is dropped for whichever node
it is registered, and that is why `S` and `C` do not mention one.
-/

set_option autoImplicit false

namespace ObjectBus.Bus

/-! ## Reading the transport that was called -/

section Sets

variable {b b' : Bus} {t : TransportId} {s : Transport}

theorem Sets.loopback? (h : Sets t s b b') {l : Loopback} (hs : s = .loopback l)
    (t' : TransportId) : b'.loopback? t' = if t' = t then some l else b.loopback? t' := by
  unfold Bus.loopback?
  rw [h.transport? t', hs]
  by_cases htt : t' = t
  · rw [if_pos htt, if_pos htt]
  · rw [if_neg htt, if_neg htt]

theorem Sets.loopback?_recorder (h : Sets t s b b') (ht : b.loopback? t = none) {r : Recorder}
    (hs : s = .recorder r) (t' : TransportId) : b'.loopback? t' = b.loopback? t' := by
  by_cases htt : t' = t
  · rw [htt, ht, Bus.loopback?, h.transport? t, if_pos rfl, hs]
  · unfold Bus.loopback?
    rw [h.transport? t', if_neg htt]

theorem loopback?_of_recorder {r : Recorder} (ht : b.transport? t = some (.recorder r)) :
    b.loopback? t = none := by
  rw [Bus.loopback?, ht]

theorem loopback?_of_none (ht : b.transport? t = none) : b.loopback? t = none := by
  rw [Bus.loopback?, ht]

theorem registered_congr (h : ∀ t, b'.loopback? t = b.loopback? t) (t : TransportId) (a : Address)
    (k : String) (o : Option NodeId) : b'.Registered t a k o ↔ b.Registered t a k o := by
  rw [Registered, Registered, h]

theorem managed?_congr (h : ∀ t, b'.loopback? t = b.loopback? t) (t : TransportId) (a : Address) :
    b'.managed? t a = b.managed? t a := by
  rw [managed?, managed?, h]

end Sets

/-! ## Withdrawing -/

/-- **Something is taken away**: the pairs of `S` are registered no more, the addresses of `C` are
managed no more, and nothing else has changed. -/
structure Withdraws (S : TransportId → Address → String → Prop) (C : TransportId → Address → Prop)
    (b b' : Bus) : Prop where
  called : b.Called b'
  registered : ∀ t a k o, b'.Registered t a k o ↔ b.Registered t a k o ∧ ¬S t a k
  managed : ∀ t a o, b'.managed? t a = some o ↔ b.managed? t a = some o ∧ ¬C t a

namespace Withdraws

variable {S S' : TransportId → Address → String → Prop} {C C' : TransportId → Address → Prop}

theorem refl (b : Bus) : Withdraws (fun _ _ _ => False) (fun _ _ => False) b b where
  called := Called.refl b
  registered _ _ _ _ := by simp
  managed _ _ _ := by simp

theorem trans {b b' b'' : Bus} (h : Withdraws S C b b') (h' : Withdraws S' C' b' b'') :
    Withdraws (fun t a k => S t a k ∨ S' t a k) (fun t a => C t a ∨ C' t a) b b'' where
  called := h.called.trans h'.called
  registered t a k o := by rw [h'.registered, h.registered, not_or, and_assoc]
  managed t a o := by rw [h'.managed, h.managed, not_or, and_assoc]

theorem congr {b b' : Bus} (h : Withdraws S C b b') (hS : ∀ t a k, S' t a k ↔ S t a k)
    (hC : ∀ t a, C' t a ↔ C t a) : Withdraws S' C' b b' where
  called := h.called
  registered t a k o := by rw [h.registered, hS]
  managed t a o := by rw [h.managed, hC]

/-- **Withdrawing adds up** over a list of steps, each of which may look at everything that calls
leave alone. -/
theorem foldl {ι : Type} {S : ι → TransportId → Address → String → Prop}
    {C : ι → TransportId → Address → Prop} {step : Bus → ι → Bus} {b : Bus} (hb : b.Orderly)
    (xs : List ι)
    (hstep : ∀ x ∈ xs, ∀ b', b.Called b' → b'.Orderly → Withdraws (S x) (C x) b' (step b' x)) :
    Withdraws (fun t a k => ∃ x ∈ xs, S x t a k) (fun t a => ∃ x ∈ xs, C x t a) b
      (xs.foldl step b) := by
  induction xs generalizing b with
  | nil => exact (refl b).congr (by simp) (by simp)
  | cons x xs ih =>
      have hx := hstep x List.mem_cons_self b (Called.refl b) hb
      have hxs := ih (hx.called.orderly hb) fun y hy b' hcalled =>
        hstep y (List.mem_cons_of_mem x hy) b' (hx.called.trans hcalled)
      exact (hx.trans hxs).congr (by simp) (by simp)

end Withdraws

variable {b : Bus} (hb : b.Orderly) (h : Host)

include hb

theorem withdraws_dropAt (t : TransportId) (text k : String) :
    Withdraws (fun t' a k' => t' = t ∧ readAddress text = some a ∧ k' = k) (fun _ _ => False) b
      (b.dropAt h t text k) := by
  cases ht : b.transport? t with
  | none =>
      rw [dropAt_of_none h ht]
      -- a transport that is gone has nothing registered
      refine ⟨Called.refl b, fun t' a k' o => ?_, by simp⟩
      refine ⟨fun hr => ⟨hr, ?_⟩, And.left⟩
      rintro ⟨rfl, -, -⟩
      obtain ⟨l, hl, -⟩ := hr
      rw [loopback?_of_none ht] at hl
      cases hl
  | some s =>
      have hsets := dropAt_spec hb h ht text k
      cases s with
      | recorder r =>
          -- what a recorder keeps is no registration at an address
          have hnone := loopback?_of_recorder ht
          have hsame := hsets.loopback?_recorder hnone rfl
          refine ⟨hsets.called, fun t' a k' o => ?_, fun t' a o => by simp [managed?_congr hsame]⟩
          rw [registered_congr hsame]
          refine ⟨fun hr => ⟨hr, ?_⟩, And.left⟩
          rintro ⟨rfl, -, -⟩
          obtain ⟨l, hl, -⟩ := hr
          rw [hnone] at hl
          cases hl
      | loopback l =>
          have hl := loopback?_of_transport? ht
          have hget := hsets.loopback? rfl
          cases ha : readAddress text with
          | none =>
              -- a text that is no address is ignored
              have hsame : ∀ t', (b.dropAt h t text k).loopback? t' = b.loopback? t' := by
                intro t'
                rw [hget, ha]
                split
                · next h => rw [h, hl]
                · rfl
              exact ⟨hsets.called, fun t' a k' o => by simp [registered_congr hsame],
                fun t' a o => by simp [managed?_congr hsame]⟩
          | some c =>
              simp only [ha] at hget
              refine ⟨hsets.called, ?_, ?_⟩
              · intro t' a k' o
                unfold Registered
                rw [hget]
                split
                · next htt =>
                    subst htt
                    simp only [hl, Option.some.injEq, exists_eq_left', true_and]
                    rw [Loopback.registers_unregister (hb.loopbacks t' l hl), eq_comm (a := c)]
                · next htt => simp [htt]
              · intro t' a o
                unfold managed?
                rw [hget]
                split
                · next htt => simp [htt, hl, Loopback.managed_unregister]
                · simp

theorem managed?_callManage (t : TransportId) (n : NodeId) (object : Option ObjectId)
    (t' : TransportId) (a : Address) :
    (b.callManage h t n object).managed? t' a =
      if t' = t ∧ b.addressOn n t = some a ∧ (b.loopback? t).isSome then object
      else b.managed? t' a := by
  cases ht : b.transport? t with
  | none => simp [callManage_of_none h ht, loopback?_of_none ht]
  | some s =>
      have hsets := callManage_spec hb h ht n object
      cases s with
      | recorder r =>
          have hnone := loopback?_of_recorder ht
          rw [managed?_congr (hsets.loopback?_recorder hnone rfl)]
          simp [hnone]
      | loopback l =>
          have hl := loopback?_of_transport? ht
          have hget := hsets.loopback? rfl t'
          unfold managed? addressOn
          rw [hget]
          by_cases htt : t' = t
          · subst htt
            cases ha : readAddress (b.addressText n t') with
            | none => simp [hl]
            | some c =>
                simp only [if_true, hl, Option.bind_some, Option.isSome_some, and_true, true_and,
                  Option.some.injEq]
                rw [Loopback.get?_setManaged (hb.loopbacks t' l hl)]
                simp only [eq_comm]
          · simp [htt]

theorem called_callManage (t : TransportId) (n : NodeId) (object : Option ObjectId) :
    b.Called (b.callManage h t n object) := by
  cases ht : b.transport? t with
  | none => rw [callManage_of_none h ht]; exact Called.refl b
  | some s => exact (callManage_spec hb h ht n object).called

theorem registered_callManage (t : TransportId) (n : NodeId) (object : Option ObjectId)
    (t' : TransportId) (a : Address) (k : String) (o : Option NodeId) :
    (b.callManage h t n object).Registered t' a k o ↔ b.Registered t' a k o := by
  cases ht : b.transport? t with
  | none => rw [callManage_of_none h ht]
  | some s =>
      have hsets := callManage_spec hb h ht n object
      cases s with
      | recorder r =>
          exact registered_congr (hsets.loopback?_recorder (loopback?_of_recorder ht) rfl) t' a k o
      | loopback l =>
          have hl := loopback?_of_transport? ht
          unfold Registered
          rw [hsets.loopback? rfl t']
          split
          · next htt =>
              subst htt
              simp only [hl, Option.some.injEq, exists_eq_left']
              cases readAddress (b.addressText n t') <;> rfl
          · rfl

theorem withdraws_callManage (t : TransportId) (n : NodeId) :
    Withdraws (fun _ _ _ => False) (fun t' a => t' = t ∧ b.addressOn n t = some a) b
      (b.callManage h t n none) where
  called := called_callManage hb h t n none
  registered t' a k o := by simp [registered_callManage hb h]
  managed t' a o := by
    rw [managed?_callManage hb h]
    cases hl : b.loopback? t with
    | none =>
        simp only [Option.isSome_none, Bool.false_eq_true, and_false, if_false]
        refine ⟨fun hm => ⟨hm, ?_⟩, And.left⟩
        rintro ⟨rfl, -⟩
        simp [managed?, hl] at hm
    | some l =>
        simp only [Option.isSome_some, and_true]
        split
        · next hc => simp [hc]
        · next hc => simp [hc]

/-! ## The ways to leave -/

theorem withdraws_dropAll (t : TransportId) (text : String) {ι : Type} (name : ι → String)
    (xs : List ι) :
    Withdraws (fun t' a k => t' = t ∧ readAddress text = some a ∧ ∃ x ∈ xs, name x = k)
      (fun _ _ => False) b (xs.foldl (fun b x => b.dropAt h t text (name x)) b) := by
  refine (Withdraws.foldl hb xs fun x _ b' _ hb' =>
    withdraws_dropAt hb' h t text (name x)).congr ?_ (by simp)
  intro t' a k
  constructor
  · rintro ⟨rfl, ha, x, hx, rfl⟩
    exact ⟨x, hx, rfl, ha, rfl⟩
  · rintro ⟨x, hx, rfl, ha, rfl⟩
    exact ⟨rfl, ha, x, hx, rfl⟩

/-- A name of a node is dropped on some transports. -/
theorem withdraws_dropOf (n : NodeId) (name : String) (ts : List TransportId) :
    Withdraws (fun t a k => t ∈ ts ∧ b.addressOn n t = some a ∧ k = name) (fun _ _ => False) b
      (ts.foldl (fun b t => b.dropOf h n name t) b) := by
  refine (Withdraws.foldl hb ts
    (S := fun t t' a k => t' = t ∧ b.addressOn n t = some a ∧ k = name)
    (C := fun _ _ _ => False) fun t _ b' hcalled hb' => ?_).congr ?_ (by simp)
  · refine (withdraws_dropAt hb' h t (b'.addressText n t) name).congr ?_ (by simp)
    intro t' a k
    rw [addressOn, hcalled.addressText]
  · intro t a k
    simp

/-- A node leaves some transports with some names. -/
theorem withdraws_leave (n : NodeId) (names : List String) (managing : Bool)
    (ts : List TransportId) :
    Withdraws (fun t a k => t ∈ ts ∧ b.addressOn n t = some a ∧ k ∈ names)
      (fun t a => managing = true ∧ t ∈ ts ∧ b.addressOn n t = some a) b
      (ts.foldl (fun b t => b.leave h n names managing t) b) := by
  refine (Withdraws.foldl hb ts
    (S := fun t t' a k => t' = t ∧ b.addressOn n t = some a ∧ k ∈ names)
    (C := fun t t' a => managing = true ∧ t' = t ∧ b.addressOn n t = some a)
    fun t _ b' hcalled hb' => ?_).congr ?_ ?_
  · have hdrop := withdraws_dropAll hb' h t (b'.addressText n t) (fun k => k) names
    cases managing with
    | false =>
        simp only [leave, Bool.false_eq_true, if_false]
        refine hdrop.congr (fun t' a k => ?_) (by simp)
        simp [addressOn, hcalled.addressText]
    | true =>
        have hclear := withdraws_callManage (hdrop.called.orderly hb') h t n
        simp only [leave, if_true]
        refine (hdrop.trans hclear).congr (fun t' a k => ?_) (fun t' a => ?_)
        · simp [addressOn, hcalled.addressText]
        · rw [hdrop.called.addressOn, hcalled.addressOn]
          simp
  · intro t a k
    simp
  · intro t a
    constructor
    · rintro ⟨hm, ht, ha⟩
      exact ⟨t, ht, hm, rfl, ha⟩
    · rintro ⟨_, ht, hm, rfl, ha⟩
      exact ⟨hm, ht, ha⟩

/-- What a withdrawn descendant has registered. -/
def Relocation.Holds (b : Bus) (m : Relocation) (t : TransportId) (a : Address) (k : String) :
    Prop :=
  t ∈ m.servers ∧ b.addressOn m.node t = some a ∧ ∃ i ∈ m.interfaces, b.nameOf i = k

/-- Where a withdrawn descendant manages something. -/
def Relocation.Marks (b : Bus) (m : Relocation) (t : TransportId) (a : Address) : Prop :=
  m.managing.isSome = true ∧ t ∈ m.servers ∧ b.addressOn m.node t = some a

omit hb in
theorem Called.holds_iff {b b' : Bus} (hcalled : b.Called b') (m : Relocation) (t : TransportId)
    (a : Address) (k : String) : m.Holds b' t a k ↔ m.Holds b t a k := by
  simp only [Relocation.Holds, hcalled.addressOn, hcalled.nameOf]

omit hb in
theorem Called.marks_iff {b b' : Bus} (hcalled : b.Called b') (m : Relocation) (t : TransportId)
    (a : Address) : m.Marks b' t a ↔ m.Marks b t a := by
  simp only [Relocation.Marks, hcalled.addressOn]

theorem withdraws_withdraw (m : Relocation) :
    Withdraws (m.Holds b) (m.Marks b) b (b.withdraw h m) := by
  refine (Withdraws.foldl hb m.servers
    (S := fun t t' a k => t' = t ∧ b.addressOn m.node t = some a ∧
      ∃ i ∈ m.interfaces, b.nameOf i = k)
    (C := fun t t' a => m.managing.isSome = true ∧ t' = t ∧ b.addressOn m.node t = some a)
    fun t _ b' hcalled hb' => ?_).congr ?_ ?_
  · -- the names are looked up again at every step, but calls do not change them
    have hdrop : Withdraws (fun t' a k => t' = t ∧ readAddress (b'.addressText m.node t) = some a ∧
        ∃ i ∈ m.interfaces, b.nameOf i = k) (fun _ _ => False) b'
        (m.interfaces.foldl
          (fun c i => c.dropAt h t (b'.addressText m.node t) (c.nameOf i)) b') := by
      refine (Withdraws.foldl hb' m.interfaces
        (S := fun i t' a k => t' = t ∧ readAddress (b'.addressText m.node t) = some a ∧
          k = b.nameOf i) (C := fun _ _ _ => False) fun i _ c hc hc' => ?_).congr ?_ (by simp)
      · refine (withdraws_dropAt hc' h t _ _).congr (fun t' a k => ?_) (by simp)
        rw [hc.nameOf, hcalled.nameOf]
      · intro t' a k
        constructor
        · rintro ⟨rfl, ha, i, hi, rfl⟩
          exact ⟨i, hi, rfl, ha, rfl⟩
        · rintro ⟨i, hi, rfl, ha, rfl⟩
          exact ⟨rfl, ha, i, hi, rfl⟩
    unfold withdrawOn
    split
    · next hm =>
        have hclear := withdraws_callManage (hdrop.called.orderly hb') h t m.node
        refine (hdrop.trans hclear).congr (fun t' a k => ?_) (fun t' a => ?_)
        · simp [addressOn, hcalled.addressText]
        · rw [hdrop.called.addressOn, hcalled.addressOn]
          simp [hm]
    · next hm =>
        refine hdrop.congr (fun t' a k => ?_) (fun t' a => ?_)
        · simp [addressOn, hcalled.addressText]
        · simp [hm]
  · intro t a k
    simp [Relocation.Holds]
  · intro t a
    constructor
    · rintro ⟨hm, ht, ha⟩
      exact ⟨t, ht, hm, rfl, ha⟩
    · rintro ⟨_, ht, hm, rfl, ha⟩
      exact ⟨hm, ht, ha⟩

theorem withdraws_withdrawAll (ms : List Relocation) :
    Withdraws (fun t a k => ∃ m ∈ ms, m.Holds b t a k) (fun t a => ∃ m ∈ ms, m.Marks b t a) b
      (ms.foldl (fun b m => b.withdraw h m) b) := by
  refine Withdraws.foldl hb ms fun m _ b' hcalled hb' => ?_
  exact (withdraws_withdraw hb' h m).congr (fun t a k => (hcalled.holds_iff m t a k).symm)
    (fun t a => (hcalled.marks_iff m t a).symm)

end ObjectBus.Bus
