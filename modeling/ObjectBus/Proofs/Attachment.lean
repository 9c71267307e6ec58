import ObjectBus.Proofs.Effect.Operations

/-!
# Values that believe to be attached

A value that believes to be attached tells the truth as long as its node is there and has its name.
A node knows its values by name only: whoever takes a name off a node tells the value that the name
leads to, and no other. So a value that was moved out of its handle is not told, and goes on to
believe what is not true any more (`Bus.Abandons`).

Runs that abandon no value keep all of them truthful, and what is abandoned is exactly what makes the
difference (`truthful_iff_not_abandons`).
-/

set_option autoImplicit false

namespace ObjectBus

/-- **An operation lets a value go**, or hands it over to a node that may refuse it. -/
def Operation.LetsGo (i : InterfaceId) : Operation → Prop
  | dropInterface j => j = i
  | makeInterface j _ => j = i
  | _ => False

namespace Bus

/-- **A node has a name**, wherever it leads. -/
def Lists (b : Bus) (n : NodeId) (k : String) : Prop := ∃ i, b.Has n k i

/-- **Some value believes** to be attached to a node by a name. -/
def Believed (b : Bus) (n : NodeId) (k : String) : Prop := ∃ i, b.owner? i = some (n, k)

/-- **Values tell the truth**: the node that a value believes to be attached to has its name. -/
def Truthful (b : Bus) : Prop := ∀ n k, b.Believed n k → b.Lists n k

/-- **A value takes its name along** when its last handle goes. -/
def TakesAlong (b : Bus) (j : InterfaceId) (n : NodeId) (k : String) : Prop :=
  ∃ y x, b.interface? j = some y ∧ y.handles = 1 ∧ b.Clearing j n x k

/-- **A name is cleared for nothing**: a transport refuses the value that was to have it. -/
def ClearsInVain (levels : Nat) (b : Bus) (j : InterfaceId) (n : NodeId) (k : String) : Prop :=
  (b.makeInterface (.ofLevels (levels + 1)) j n).1 ≠ .ok () ∧
    ∃ y x, b.interface? j = some y ∧ y.owner = none ∧ y.interface.name = k ∧
      b.node? n = some x ∧ (Entries.get? k x.interfaces).any b.isLiveInterface = false

/-- **An operation takes a name off a node.** -/
def TakesOff (levels : Nat) (b : Bus) : Operation → NodeId → String → Prop
  | .detach n k, m, l => m = n ∧ l = k
  | .dropNode n, m, _ => m = n ∧ ∃ x, b.node? n = some x ∧ x.handles = 1
  | .dropInterface j, m, l => b.TakesAlong j m l
  | .makeInterface j n, m, l => b.isLooseInterface j = true ∧ b.isLiveNode n = true ∧
      (b.TakesAlong j m l ∨ m = n ∧ b.ClearsInVain levels j n l)
  | _, _, _ => False

/-- **An operation abandons a value**: it takes a name off a node where a value, which it does not let
go, believes to have it, but the name leads elsewhere. -/
def Abandons (levels : Nat) (b : Bus) (op : Operation) : Prop :=
  ∃ i n k, b.owner? i = some (n, k) ∧ ¬b.Has n k i ∧ ¬op.LetsGo i ∧ b.TakesOff levels op n k

/-! ## Names and beliefs afterwards -/

section After

variable {b b' : Bus}

theorem lists_congr (h : ∀ n k i, b'.Has n k i ↔ b.Has n k i) (n : NodeId) (k : String) :
    b'.Lists n k ↔ b.Lists n k := exists_congr (h n k)

/-- No name has gone, and no belief is new. -/
theorem Truthful.of_steady (ht : b.Truthful) (hlists : ∀ n k, b.Lists n k → b'.Lists n k)
    (hbelieved : ∀ n k, b'.Believed n k → b.Believed n k) : b'.Truthful :=
  fun n k hk => hlists n k (ht n k (hbelieved n k hk))

/-- Some names have gone, and some values have given up what they believed. -/
theorem Truthful.iff_of_lost (ht : b.Truthful) (lost : NodeId → String → Prop)
    (left : InterfaceId → Prop) (hlists : ∀ n k, b'.Lists n k ↔ b.Lists n k ∧ ¬lost n k)
    (hleft : ∀ i, left i → b'.owner? i = none)
    (hstays : ∀ i, ¬left i → b'.owner? i = b.owner? i) :
    b'.Truthful ↔ ¬∃ i n k, b.owner? i = some (n, k) ∧ ¬left i ∧ lost n k := by
  constructor
  · rintro ht' ⟨i, n, k, hi, hl, hlost⟩
    exact ((hlists n k).1 (ht' n k ⟨i, (hstays i hl).trans hi⟩)).2 hlost
  · rintro hno n k ⟨i, hi⟩
    have hl : ¬left i := by
      intro hl
      rw [hleft i hl] at hi
      cases hi
    have hi := (hstays i hl).symm.trans hi
    exact (hlists n k).2 ⟨ht n k ⟨i, hi⟩, fun hlost => hno ⟨i, n, k, hi, hl, hlost⟩⟩

theorem AtNode.has {n : NodeId} {x x' : Node} (h : b.AtNode b' n x x') (m : NodeId) (k : String)
    (i : InterfaceId) : b'.Has m k i ↔
      if m = n then Entries.get? k x'.interfaces = some i else b.Has m k i := by
  unfold Has
  split
  · next hm =>
      subst hm
      obtain ⟨z, hz, hholdings⟩ := h.after
      simp only [hz, Option.some.injEq, exists_eq_left', (Node.eq_of_holdings hholdings).2.1]
  · next hm =>
      have hsame := (h.others m hm).holdings
      constructor
      · rintro ⟨z, hz, hk⟩
        rw [hz] at hsame
        obtain ⟨y, hy, hholdings⟩ := Option.map_eq_some_iff.1 hsame.symm
        exact ⟨y, hy, (Node.eq_of_holdings hholdings).2.1 ▸ hk⟩
      · rintro ⟨y, hy, hk⟩
        obtain ⟨z, hz, hholdings⟩ := (h.others m hm).node? hy
        exact ⟨z, hz, (Node.eq_of_holdings hholdings).2.1 ▸ hk⟩

theorem Dropped.has (hb : b.Sound) {n : NodeId} {x : Node} {name : String}
    (h : b.Dropped b' n x name) (m : NodeId) (k : String) (i : InterfaceId) :
    b'.Has m k i ↔ b.Has m k i ∧ ¬(m = n ∧ k = name) := by
  rw [h.node.has, Node.interfaces_dropName, Entries.get?_drop (hb.table h.node.before)]
  by_cases hm : m = n
  · subst hm
    simp only [if_true, true_and, Has, h.node.before, Option.some.injEq, exists_eq_left']
    by_cases hk : k = name <;> simp [hk]
  · simp [hm]

theorem Quiet.has (h : b.Quiet b') (m : NodeId) (k : String) (i : InterfaceId) :
    b'.Has m k i ↔ b.Has m k i := by
  constructor
  · rintro ⟨z, hz, hk⟩
    cases hm : b.node? m with
    | none =>
        rw [(h.new hm hz).1] at hk
        cases hk
    | some y =>
        obtain ⟨z', hz', hholdings⟩ := (h.old hm).node? hm
        obtain rfl := Option.some.inj (hz.symm.trans hz')
        exact ⟨y, hm, (Node.eq_of_holdings hholdings).2.1 ▸ hk⟩
  · rintro ⟨y, hy, hk⟩
    obtain ⟨z, hz, hholdings⟩ := (h.old hy).node? hy
    exact ⟨z, hz, (Node.eq_of_holdings hholdings).2.1 ▸ hk⟩

end After

/-! ## Letting values go -/

section Release

variable {b : Bus} (hb : b.Sound) (hh : b.Held)

/-- Taking a value off its node says nothing to other values. -/
theorem interfaces_release (hb : b.Orderly) (h : Host) (i : InterfaceId) :
    (b.release h i).interfaces = b.interfaces ∨
      (b.release h i).interfaces = (b.setOwner i none).interfaces := by
  cases hi : b.interface? i with
  | none =>
      refine Or.inl ?_
      simp only [release, hi]
  | some y =>
      cases ho : y.owner with
      | none =>
          refine Or.inl ?_
          simp only [release, hi, ho]
      | some n =>
          refine Or.inr ?_
          cases hn : (b.setOwner i none).node? n with
          | none => simp only [release, hi, ho, hn]
          | some x =>
              cases hk : Entries.get? y.interface.name x.interfaces with
              | none => simp only [release, hi, ho, hn, hk]
              | some j =>
                  cases hclears : (b.setOwner i none).clearsName i j with
                  | false => simp only [release, hi, ho, hn, hk, hclears, Bool.false_eq_true, if_false]
                  | true =>
                      rw [release_eq h hb hi ho hn hk hclears]
                      exact (called_foldl_dropOf h ((hb.setOwner i none).adjustNode n _) n
                        y.interface.name (b.transportsOf x)).interfaces

/-- A value that is destroyed is gone, and the others believe what they believed. -/
theorem owner?_destroyInterface (hb : b.Orderly) (h : Host) (i j : InterfaceId) :
    (b.destroyInterface h i).owner? j = if j = i then none else b.owner? j := by
  have hdrop : (b.destroyInterface h i).interfaces = (b.forget i).interfaces := by
    show Entries.drop i (b.release h i).interfaces = Entries.drop i b.interfaces
    rcases interfaces_release hb h i with heq | heq <;> rw [heq]
    exact Entries.drop_adjust_self _ _ _
  rw [← owner?_forget hb, owner?, owner?, interface?, interface?, hdrop]

/-- The bus with one handle to an interface value less. -/
def slackened (b : Bus) (i : InterfaceId) : Bus :=
  b.adjustInterface i fun v => { v with handles := v.handles - 1 }

theorem owner?_slackened (b : Bus) (i j : InterfaceId) : (b.slackened i).owner? j = b.owner? j :=
  owner?_adjustInterface i j fun _ => ⟨rfl, rfl⟩

theorem isLiveInterface_slackened {i : InterfaceId} {y : Instance} (hi : b.interface? i = some y) :
    (b.slackened i).isLiveInterface i = decide (0 < y.handles - 1) := by
  rw [isLiveInterface, slackened, interface?_adjustInterface, if_pos rfl, hi]
  rfl

theorem orderly_slackened (hb : b.Sound) (i : InterfaceId) : (b.slackened i).Orderly := by
  have hsound : (b.slackened i).Sound := hb.adjustInterface i fun _ _ => ⟨rfl, rfl⟩
  exact hsound.orderly

theorem releaseInterface_slackened (h : Host) (i : InterfaceId) :
    b.releaseInterface h i = if (b.slackened i).isLiveInterface i then b.slackened i
      else h.destroyInterface i (b.slackened i) := rfl

/-- A value clears one name only. -/
theorem Clearing.unique {i : InterfaceId} {n m : NodeId} {x z : Node} {k l : String}
    (h : b.Clearing i n x k) (h' : b.Clearing i m z l) : m = n ∧ l = k := by
  obtain ⟨v, hv, ho, hname⟩ := h.value
  obtain ⟨v', hv', ho', hname'⟩ := h'.value
  obtain rfl := Option.some.inj (hv.symm.trans hv')
  exact ⟨Option.some.inj (ho'.symm.trans ho), hname'.symm.trans hname⟩

/-- With its last handle goes what a value clears. -/
theorem takesAlong_iff_clearing {i : InterfaceId} {y : Instance} (hi : b.interface? i = some y)
    (hlast : y.handles = 1) (n : NodeId) (k : String) :
    b.TakesAlong i n k ↔ ∃ x, b.Clearing i n x k := by
  constructor
  · rintro ⟨-, x, -, -, hc⟩
    exact ⟨x, hc⟩
  · rintro ⟨x, hc⟩
    exact ⟨y, x, hi, hlast, hc⟩

include hb hh

/-- **Letting a value go** takes its name along, or nothing. -/
theorem releaseInterface_beliefs (levels : Nat) {i : InterfaceId} {y : Instance}
    (hi : b.interface? i = some y) :
    (∀ n k j, (b.releaseInterface (.ofLevels (levels + 1)) i).Has n k j ↔
      b.Has n k j ∧ ¬b.TakesAlong i n k) ∧
    (∀ j, ¬(j = i ∧ y.handles = 1) →
      (b.releaseInterface (.ofLevels (levels + 1)) i).owner? j = b.owner? j) ∧
    (y.handles = 1 → (b.releaseInterface (.ofLevels (levels + 1)) i).owner? i = none) := by
  by_cases hlast : y.handles = 1
  · have hown : ∀ j, (b.releaseInterface (.ofLevels (levels + 1)) i).owner? j =
        if j = i then none else b.owner? j := by
      intro j
      have hdead : (b.slackened i).isLiveInterface i = false := by
        rw [isLiveInterface_slackened hi, hlast]
        rfl
      rw [releaseInterface_slackened, hdead, if_neg Bool.false_ne_true, ← owner?_slackened b i j]
      exact owner?_destroyInterface (orderly_slackened hb i) (.ofLevels levels) i j
    refine ⟨fun n k j => ?_, fun j hj => ?_, fun _ => by rw [hown, if_pos rfl]⟩
    · rw [takesAlong_iff_clearing hi hlast]
      rcases (releaseInterface_last levels hb hh hi hlast).effect with
        ⟨m, x, name, hc, hdropped⟩ | ⟨hno, hquiet⟩
      · rw [hdropped.has hb]
        refine and_congr Iff.rfl (not_congr ?_)
        constructor
        · rintro ⟨rfl, rfl⟩
          exact ⟨x, hc⟩
        · rintro ⟨x', hc'⟩
          exact hc.unique hc'
      · rw [hquiet.has]
        simp only [hno, exists_false, not_false_eq_true, and_true]
    · rw [hown, if_neg fun hji => hj ⟨hji, hlast⟩]
  · have hno : ∀ n k, ¬b.TakesAlong i n k := by
      rintro n k ⟨y', -, hi', hlast', -⟩
      obtain rfl := Option.some.inj (hi.symm.trans hi')
      exact hlast hlast'
    have hmore := (releaseInterface_more levels hb hh hi hlast).2
    refine ⟨fun n k j => ?_, fun j _ => ?_, fun h => absurd h hlast⟩
    · rw [hmore.has]
      simp only [hno, not_false_eq_true, and_true]
    · have hpos := hh.values hi
      have hlive : (b.slackened i).isLiveInterface i = true := by
        rw [isLiveInterface_slackened hi, decide_eq_true_eq]
        omega
      rw [releaseInterface_slackened, if_pos hlive, owner?_slackened]

/-- Letting a value go is as true as what goes with it. -/
theorem truthful_releaseInterface (levels : Nat) {i : InterfaceId} {y : Instance}
    (hi : b.interface? i = some y) (ht : b.Truthful) :
    (b.releaseInterface (.ofLevels (levels + 1)) i).Truthful ↔
      ¬∃ j n k, b.owner? j = some (n, k) ∧ ¬b.Has n k j ∧ j ≠ i ∧ b.TakesAlong i n k := by
  obtain ⟨hhas, hstays, hgone⟩ := releaseInterface_beliefs hb hh levels hi
  rw [ht.iff_of_lost (b.TakesAlong i) (fun j => j = i ∧ y.handles = 1)
    (fun n k => by simp only [Lists, hhas, exists_and_right])
    (fun j hj => hj.1 ▸ hgone hj.2) hstays]
  refine not_congr (exists_congr fun j => exists_congr fun n => exists_congr fun k => ?_)
  constructor
  · rintro ⟨hj, hne, htakes⟩
    have hlast : y.handles = 1 := by
      obtain ⟨y', -, hi', hlast, -⟩ := htakes
      obtain rfl := Option.some.inj (hi.symm.trans hi')
      exact hlast
    have hji : j ≠ i := fun hji => hne ⟨hji, hlast⟩
    refine ⟨hj, fun hhas => ?_, hji, htakes⟩
    -- a name that goes along leads to the value or to one that is gone
    obtain ⟨-, x, -, -, hc⟩ := htakes
    obtain ⟨l, hl, hfree⟩ := hc.entry
    obtain ⟨x', hx', hk⟩ := hhas
    obtain rfl := Option.some.inj (hc.node.symm.trans hx')
    obtain rfl := Option.some.inj (hl.symm.trans hk)
    obtain ⟨v, hv, -⟩ := owner?_eq_some.1 hj
    rcases hfree with hfree | hdead
    · exact hji hfree
    · rw [hh.isLiveInterface hv] at hdead
      cases hdead
  · rintro ⟨hj, -, hji, htakes⟩
    exact ⟨hj, fun h => hji h.1, htakes⟩

end Release

/-! ## Dropping names and nodes -/

/-- Where there is no such name, nothing is dropped. -/
theorem detach_of_not_lists {b : Bus} (h : Host) {n : NodeId} {name : String}
    (hno : ¬b.Lists n name) : b.detach h n name = (false, b) := by
  cases hn : b.node? n with
  | none => simp only [detach, hn]
  | some x =>
      cases hk : Entries.get? name x.interfaces with
      | none => simp only [detach, hn, hk]
      | some i => exact absurd ⟨i, x, hn, hk⟩ hno

section Detach

variable {b : Bus} (hb : b.Sound) (hh : b.Held)

include hb hh

/-- **Dropping a name** tells the value that the name leads to. -/
theorem owner?_detach (h : Host) {n : NodeId} {x : Node} {name : String} {i : InterfaceId}
    (hn : b.node? n = some x) (hk : Entries.get? name x.interfaces = some i) (j : InterfaceId) :
    (b.detach h n name).2.owner? j = if j = i then none else b.owner? j := by
  have hcalled := called_foldl_dropOf h (hb.orderly.adjustNode n (Node.dropName name)) n name
    ((b.adjustNode n (Node.dropName name)).transportsOf x)
  have hown := hcalled.owner? j
  simp only [detach_eq h hb.orderly hn hk]
  generalize ((b.adjustNode n (Node.dropName name)).transportsOf x).foldl
    (fun b t => b.dropOf h n name t) (b.adjustNode n (Node.dropName name)) = c at hcalled hown
  cases hlive : c.isLiveInterface i with
  | true =>
      rw [if_pos rfl, owner?_setOwner_none, hown]
      rfl
  | false =>
      rw [if_neg Bool.false_ne_true, hown]
      split
      · next hji =>
          -- the value is gone already
          cases hown' : b.owner? j with
          | none => exact hown'
          | some nk =>
              obtain ⟨y, hy, -⟩ := owner?_eq_some.1 hown'
              have hlive' := hh.isLiveInterface (hji ▸ hy)
              have hdead : b.isLiveInterface i = false := by
                rw [← hlive, hcalled.isLiveInterface]
                rfl
              rw [hdead] at hlive'
              cases hlive'
      · rfl

/-- A name that was dropped is not there. -/
theorem not_lists_detach (h : Host) (n : NodeId) (name : String) :
    ¬(b.detach h n name).2.Lists n name := by
  by_cases hlists : b.Lists n name
  · obtain ⟨i, x, hn, hk⟩ := hlists
    rintro ⟨j, hj⟩
    exact (((detach_spec hb hh h hn hk).2.has hb n name j).1 hj).2 ⟨rfl, rfl⟩
  · rw [detach_of_not_lists h hlists]
    exact hlists

theorem truthful_detach (h : Host) {n : NodeId} {x : Node} {name : String} {i : InterfaceId}
    (hn : b.node? n = some x) (hk : Entries.get? name x.interfaces = some i) (ht : b.Truthful) :
    (b.detach h n name).2.Truthful ↔
      ¬∃ j, b.owner? j = some (n, name) ∧ ¬b.Has n name j := by
  have hdropped := (detach_spec hb hh h hn hk).2
  have hown := owner?_detach hb hh h hn hk
  rw [ht.iff_of_lost (fun m l => m = n ∧ l = name) (fun j => j = i)
    (fun m l => by simp only [Lists, hdropped.has hb, exists_and_right])
    (fun j hj => by rw [hown, if_pos hj]) (fun j hj => by rw [hown, if_neg hj])]
  have hhas : ∀ j, b.Has n name j ↔ j = i := by
    intro j
    simp only [Has, hn, Option.some.injEq, exists_eq_left', hk, eq_comm]
  simp only [hhas]
  refine not_congr (exists_congr fun j => ?_)
  constructor
  · rintro ⟨m, l, hj, hne, rfl, rfl⟩
    exact ⟨hj, hne⟩
  · rintro ⟨hj, hne⟩
    exact ⟨n, name, hj, hne, rfl, rfl⟩

end Detach

section Uproot

variable {b : Bus} (hb : b.Sound) (levels : Nat) {n : NodeId} {x : Node}
  (hn : b.node? n = some x)

include hb hn

theorem not_lists_dropNode (hlast : x.handles = 1) (k : String) :
    ¬(b.releaseNode (.ofLevels (levels + 1)) n).Lists n k := by
  rw [releaseNode_of_last levels hn hlast]
  rintro ⟨j, hj⟩
  have hj := ((called_without hb (.ofLevels levels) hn hlast).has n k j).1 hj
  exact ((has_without hb hn n k j).1 hj).1 rfl

/-- **Dropping a node** tells the values that its names lead to. -/
theorem truthful_dropNode (hh : b.Held) (hlast : x.handles = 1) (ht : b.Truthful) :
    (b.releaseNode (.ofLevels (levels + 1)) n).Truthful ↔
      ¬∃ j k, b.owner? j = some (n, k) ∧ ¬b.Has n k j := by
  have hcalled := called_without hb (.ofLevels levels) hn hlast
  rw [releaseNode_of_last levels hn hlast, ht.iff_of_lost (fun m _ => m = n)
    (fun j => j ∈ b.instancesOf x) (fun m k => ?_) (fun j hj => ?_) (fun j hj => ?_)]
  · -- a value that believes to be attached to the node is told if its name leads to it
    have hmem : ∀ {j k}, b.owner? j = some (n, k) → (j ∈ b.instancesOf x ↔ b.Has n k j) := by
      intro j k hj
      obtain ⟨y, hy, ho, rfl⟩ := owner?_eq_some.1 hj
      rw [instancesOf, List.mem_filter, Entries.mem_values_iff (hb.table hn)]
      constructor
      · rintro ⟨⟨k', hk'⟩, -⟩
        exact ⟨x, hn, (hb.entry hn hk' hy).1 ▸ hk'⟩
      · rintro ⟨x', hx', hk⟩
        obtain rfl := Option.some.inj (hn.symm.trans hx')
        exact ⟨⟨_, hk⟩, hh.isLiveInterface hy⟩
    refine not_congr (exists_congr fun j => ?_)
    constructor
    · rintro ⟨m, k, hj, hne, rfl⟩
      exact ⟨k, hj, fun hhas => hne ((hmem hj).2 hhas)⟩
    · rintro ⟨k, hj, hne⟩
      exact ⟨n, k, hj, fun h => hne ((hmem hj).1 h), rfl⟩
  · simp only [Lists, hcalled.has, has_without hb hn, exists_and_left]
    exact and_comm
  · rw [hcalled.owner?, owner?_without, if_pos hj]
  · rw [hcalled.owner?, owner?_without, if_neg hj]

end Uproot

/-! ## Attaching -/

section Make

variable {b : Bus} (hb : b.Sound)

/-- Clearing a name concerns no other name and no belief. -/
theorem Cleared.has {c : Bus} {n : NodeId} {x : Node} {name : String} (hb : b.Sound)
    (hc : b.Cleared c n x name) (m : NodeId) (k : String) (j : InterfaceId) :
    c.Has m k j ↔ b.Has m k j ∧ ¬(m = n ∧ k = name) :=
  (hc.called.has m k j).trans (has_adjustNode_drop hb n name m k j)

theorem Cleared.owner? {c : Bus} {n : NodeId} {x : Node} {name : String}
    (hc : b.Cleared c n x name) (j : InterfaceId) : c.owner? j = b.owner? j :=
  hc.called.owner? j

include hb

/-- **Attaching under a free name**: the name is cleared, and then taken or not. -/
theorem attach_cases (h : Host) {i : InterfaceId} {y : Instance} {n : NodeId} {x : Node}
    (hi : b.interface? i = some y) (ho : y.owner = none) (hn : b.node? n = some x)
    (hfree : (Entries.get? y.interface.name x.interfaces).any b.isLiveInterface = false) :
    ∃ r, (b.cleared h n x y.interface.name).Called r ∧
      (b.attach h i n = (.ok (), r.enter n y.interface.name i) ∨
        ∃ e, b.attach h i n = (.error (.error e), r)) := by
  have hc := cleared_spec hb.orderly h hn y.interface.name
  have heq := attach_of_free hb.orderly h hi ho hn hfree
  refine ⟨_, called_registerEach (hc.sound hb).orderly h n y.interface.name (b.transportsOf x), ?_⟩
  rw [heq]
  rcases enroll_cases h i n y.interface.name (b.transportsOf x)
    (b.cleared h n x y.interface.name) with ⟨-, henroll⟩ | ⟨e, -, henroll⟩
  · rw [henroll]
    exact Or.inl rfl
  · rw [henroll]
    exact Or.inr ⟨e, rfl⟩

end Make

section Handed

variable {b : Bus}

theorem clearing_handed {i : InterfaceId} {n : NodeId} {x : Node} {k : String} :
    (b.handed i).Clearing i n x k ↔ b.Clearing i n x k := by
  have hvalue : (∃ y, (b.handed i).interface? i = some y ∧ y.owner = some n ∧
      y.interface.name = k) ↔ ∃ y, b.interface? i = some y ∧ y.owner = some n ∧
        y.interface.name = k := by
    rw [interface?_handed, if_pos rfl]
    cases b.interface? i <;> simp
  have hlive := isLiveInterface_handed (b := b) i
  constructor
  · rintro ⟨hx, hy, hj⟩
    exact ⟨hx, hvalue.1 hy, hlive ▸ hj⟩
  · rintro ⟨hx, hy, hj⟩
    exact ⟨hx, hvalue.2 hy, hlive.symm ▸ hj⟩

theorem takesAlong_handed {i : InterfaceId} {n : NodeId} {k : String} :
    (b.handed i).TakesAlong i n k ↔ b.TakesAlong i n k := by
  simp only [TakesAlong, clearing_handed, interface?_handed, if_pos]
  cases b.interface? i <;> simp

/-- A value without an owner takes nothing along. -/
theorem not_takesAlong {i : InterfaceId} {y : Instance} (hi : b.interface? i = some y)
    (ho : y.owner = none) (n : NodeId) (k : String) : ¬b.TakesAlong i n k := by
  rintro ⟨-, x, -, -, hc⟩
  obtain ⟨v, hv, hown, -⟩ := hc.value
  obtain rfl := Option.some.inj (hi.symm.trans hv)
  rw [ho] at hown
  cases hown

theorem owner?_handed (i j : InterfaceId) : (b.handed i).owner? j = b.owner? j :=
  owner?_adjustInterface i j fun _ => ⟨rfl, rfl⟩

end Handed

/-- **What is lost when a node takes a loose value.** -/
def Loses (levels : Nat) (b : Bus) (i : InterfaceId) (n : NodeId) : Prop :=
  ∃ j m k, b.owner? j = some (m, k) ∧ ¬b.Has m k j ∧ j ≠ i ∧
    (b.TakesAlong i m k ∨ m = n ∧ b.ClearsInVain levels i n k)

section Taken

variable {b : Bus} (hb : b.Sound) (levels : Nat) {i : InterfaceId} {y : Instance}
  {n : NodeId} {x : Node} (hi : b.interface? i = some y) (ho : y.owner = none)
  (hn : b.node? n = some x) (ht : b.Truthful) {r : Bus}
  (hr : ((b.handed i).cleared (.ofLevels (levels + 1)) n x y.interface.name).Called r)

theorem Truthful.handed (ht : b.Truthful) (i : InterfaceId) : (b.handed i).Truthful :=
  ht.of_steady (fun _ _ h => h) fun _ _ ⟨j, hj⟩ => ⟨j, (owner?_handed i j).symm.trans hj⟩

include hb hn hr

/-- When a name is cleared, nothing else changes. -/
theorem has_owner?_cleared : (∀ m k j, r.Has m k j ↔
      b.Has m k j ∧ ¬(m = n ∧ k = y.interface.name)) ∧ ∀ j, r.owner? j = b.owner? j := by
  have hn₁ : (b.handed i).node? n = some x := hn
  have hc := cleared_spec (hb.handed i).orderly (.ofLevels (levels + 1)) hn₁ y.interface.name
  exact ⟨fun m k j => (hr.has m k j).trans (hc.has (hb.handed i) m k j),
    fun j => (hr.owner? j).trans ((hc.owner? j).trans (owner?_handed i j))⟩

include hi

theorem interface?_cleared : r.interface? i = some { y with isLoose := false } := by
  have hn₁ : (b.handed i).node? n = some x := hn
  have hc := cleared_spec (hb.handed i).orderly (.ofLevels (levels + 1)) hn₁ y.interface.name
  rw [hr.interface?, hc.interface?, interface?_handed, if_pos rfl, hi]
  rfl

include ht

/-- The name is taken, and nothing is lost. -/
theorem truthful_of_accepted : (r.enter n y.interface.name i).Truthful := by
  have hn₁ : (b.handed i).node? n = some x := hn
  have hc := cleared_spec (hb.handed i).orderly (.ofLevels (levels + 1)) hn₁ y.interface.name
  obtain ⟨hhas, hown⟩ := has_owner?_cleared hb levels hn hr
  have hnone : Entries.get? y.interface.name (x.dropName y.interface.name).interfaces = none :=
    Entries.get?_drop_self (hb.table hn) _
  have hhas' := has_enter ((hr.node? n).trans (hc.node? hn₁)) hnone i
  have hown' := owner?_enter (interface?_cleared hb levels hi hn hr) n
  rintro m k ⟨j, hj⟩
  by_cases hnew : m = n ∧ k = y.interface.name
  · exact ⟨i, (hhas' m k i).2 (Or.inl ⟨hnew.1, hnew.2, rfl⟩)⟩
  · rw [hown'] at hj
    split at hj
    · cases hj
      exact absurd ⟨rfl, rfl⟩ hnew
    · obtain ⟨l, hl⟩ := ht m k ⟨j, (hown j).symm.trans hj⟩
      exact ⟨l, (hhas' m k l).2 (Or.inr ((hhas m k l).2 ⟨hl, hnew⟩))⟩

include ho

/-- The name is cleared in vain, and the value is let go. -/
theorem truthful_of_refused : (r.releaseInterface (.ofLevels (levels + 1)) i).Truthful ↔
    ¬∃ j, b.owner? j = some (n, y.interface.name) := by
  have hn₁ : (b.handed i).node? n = some x := hn
  have hc := cleared_spec (hb.handed i).orderly (.ofLevels (levels + 1)) hn₁ y.interface.name
  obtain ⟨hhas, hown⟩ := has_owner?_cleared hb levels hn hr
  obtain ⟨hforest, -, hgone, hothers⟩ := releaseInterface_of_loose levels
    (hr.orderly (hc.sound (hb.handed i)).orderly) (interface?_cleared hb levels hi hn hr) ho
  have hhas' : ∀ m k j, (r.releaseInterface (.ofLevels (levels + 1)) i).Has m k j ↔
      b.Has m k j ∧ ¬(m = n ∧ k = y.interface.name) := by
    intro m k j
    rw [← hhas, Has, Has, node?, node?, hforest]
  have hown' : ∀ j, (r.releaseInterface (.ofLevels (levels + 1)) i).owner? j = b.owner? j := by
    intro j
    by_cases hji : j = i
    · rw [hji, hgone, owner?_of_interface? hi, ho]
      rfl
    · rw [← hown j, owner?, owner?, hothers j hji]
  rw [ht.iff_of_lost (fun m k => m = n ∧ k = y.interface.name) (fun _ => False)
    (fun m k => by simp only [Lists, hhas', exists_and_right]) (fun _ h => h.elim)
    (fun j _ => hown' j)]
  refine not_congr (exists_congr fun j => ?_)
  constructor
  · rintro ⟨m, k, hj, -, rfl, rfl⟩
    exact hj
  · exact fun hj => ⟨n, y.interface.name, hj, not_false, rfl, rfl⟩

end Taken

section Taking

variable {b : Bus} (hb : b.Sound) (hh : b.Held) (levels : Nat) {i : InterfaceId} {y : Instance}
  {n : NodeId} {x : Node} (hi : b.interface? i = some y) (hn : b.node? n = some x)
  (ht : b.Truthful)

include hb hh hi ht

/-- A value that the node refuses at once is let go. -/
theorem truthful_of_refused_at_once {e : Failure BusError}
    (he : (b.handed i).attach (.ofLevels (levels + 1)) i n = (.error e, b.handed i))
    (hvain : ∀ k, ¬b.ClearsInVain levels i n k) :
    (b.makeInterface (.ofLevels (levels + 1)) i n).2.Truthful ↔ ¬b.Loses levels i n := by
  have hi₁ : (b.handed i).interface? i = some { y with isLoose := false } := by
    rw [interface?_handed, if_pos rfl, hi]
    rfl
  rw [makeInterface_of_error (congrArg Prod.fst he), he,
    truthful_releaseInterface (hb.handed i) (hh.handed i) levels hi₁ (ht.handed i)]
  simp only [Loses, owner?_handed, takesAlong_handed, hvain, and_false, or_false]
  rfl

omit hb ht in
include hn in
/-- A value that is refused by a transport costs all the others their name that believe to have it: the
name is taken off the node before the transports are asked. -/
theorem loses_iff_of_refused (ho : y.owner = none)
    (hfree : (Entries.get? y.interface.name x.interfaces).any b.isLiveInterface = false)
    (hrefused : (b.makeInterface (.ofLevels (levels + 1)) i n).1 ≠ .ok ()) :
    b.Loses levels i n ↔ ∃ j, b.owner? j = some (n, y.interface.name) := by
  constructor
  · rintro ⟨j, m, k, hj, -, -, htakes | ⟨rfl, -, y', x', hi', -, rfl, -⟩⟩
    · exact absurd htakes (not_takesAlong hi ho m k)
    · rw [Option.some.inj (hi.symm.trans hi')]
      exact ⟨j, hj⟩
  · -- whoever believes to have the name is live, and the name leads to no live value
    rintro ⟨j, hj⟩
    obtain ⟨v, hv, hown, hname⟩ := owner?_eq_some.1 hj
    refine ⟨j, n, y.interface.name, hj, ?_, ?_, Or.inr ⟨rfl, hrefused, y, x, hi, ho, rfl, hn,
      hfree⟩⟩
    · rintro ⟨x', hx', hk⟩
      obtain rfl := Option.some.inj (hn.symm.trans hx')
      rw [hk, Option.any_some, hh.isLiveInterface hv] at hfree
      cases hfree
    · rintro rfl
      obtain rfl := Option.some.inj (hi.symm.trans hv)
      rw [ho] at hown
      cases hown

include hn

/-- **A node takes a loose value**, or refuses it. -/
theorem truthful_makeInterface :
    (b.makeInterface (.ofLevels (levels + 1)) i n).2.Truthful ↔ ¬b.Loses levels i n := by
  have hi₁ : (b.handed i).interface? i = some { y with isLoose := false } := by
    rw [interface?_handed, if_pos rfl, hi]
    rfl
  have hlive := isLiveInterface_handed (b := b) i
  cases ho : y.owner with
  | some m =>
      refine truthful_of_refused_at_once hb hh levels hi ht
        (attach_of_owner (.ofLevels (levels + 1)) hi₁ ho n) ?_
      rintro k ⟨-, y', x', hi', ho', -⟩
      obtain rfl := Option.some.inj (hi.symm.trans hi')
      rw [ho] at ho'
      cases ho'
  | none =>
      have hkeeps := not_takesAlong hi ho
      cases hfree : (Entries.get? y.interface.name x.interfaces).any b.isLiveInterface with
      | true =>
          refine truthful_of_refused_at_once hb hh levels hi ht
            (attach_of_taken (.ofLevels (levels + 1)) hi₁ ho hn (hlive ▸ hfree)) ?_
          rintro k ⟨-, y', x', hi', -, rfl, hn', hfree'⟩
          obtain rfl := Option.some.inj (hi.symm.trans hi')
          obtain rfl := Option.some.inj (hn.symm.trans hn')
          rw [hfree] at hfree'
          cases hfree'
      | false =>
          obtain ⟨r, hr, hok | ⟨e, herr⟩⟩ := attach_cases (hb.handed i) (.ofLevels (levels + 1)) hi₁
            ho hn (hlive ▸ hfree)
          · have hmake : b.makeInterface (.ofLevels (levels + 1)) i n =
                (.ok (), r.enter n y.interface.name i) := by
              rw [makeInterface_of_ok (congrArg Prod.fst hok), hok]
            rw [hmake]
            refine iff_of_true (truthful_of_accepted hb levels hi hn ht hr) ?_
            rintro ⟨j, m, k, -, -, -, htakes | ⟨-, hvain⟩⟩
            · exact hkeeps m k htakes
            · exact hvain.1 (congrArg Prod.fst hmake)
          · have hmake : b.makeInterface (.ofLevels (levels + 1)) i n =
                (.error (.error e), r.releaseInterface (.ofLevels (levels + 1)) i) := by
              rw [makeInterface_of_error (congrArg Prod.fst herr), herr]
            have hrefused : (b.makeInterface (.ofLevels (levels + 1)) i n).1 ≠ .ok () := by
              rw [hmake]
              exact fun h => nomatch h
            rw [loses_iff_of_refused hh levels hi hn ho hfree hrefused, hmake,
              truthful_of_refused hb levels hi ho hn ht hr]

end Taking

/-! ## One operation -/

/-- Where no name and no belief changes, values go on to tell the truth. -/
theorem Truthful.congr {b b' : Bus} (ht : b.Truthful) (hhas : ∀ n k i, b'.Has n k i ↔ b.Has n k i)
    (hown : ∀ i, b'.owner? i = b.owner? i) : b'.Truthful :=
  ht.of_steady (fun n k => (lists_congr hhas n k).2) fun _ _ ⟨i, hi⟩ => ⟨i, (hown i).symm.trans hi⟩

/-- A node has changed, but for its names, and then transports were called. -/
theorem Truthful.adjustNode {b b' : Bus} (ht : b.Truthful) {n : NodeId} (change : Node → Node)
    (hc : ∀ x, (change x).interfaces = x.interfaces) (hcalled : (b.adjustNode n change).Called b') :
    b'.Truthful := by
  refine ht.congr (fun m k i => (hcalled.has m k i).trans ?_) hcalled.owner?
  unfold Has
  rw [node?_adjustNode]
  split
  · cases b.node? m with
    | none => simp
    | some x => simp [hc]
  · rfl

theorem Truthful.handles {b : Bus} (ht : b.Truthful) (n : NodeId) (f : Nat → Nat) :
    (b.adjustNode n fun x => { x with handles := f x.handles }).Truthful :=
  ht.adjustNode (fun x => { x with handles := f x.handles }) (fun _ => rfl)
    (Called.refl _)

section Step

variable {b : Bus} (hb : b.Sound) (hh : b.Held) (levels : Nat) (ht : b.Truthful)

include hb ht

theorem truthful_bind (h : Host) (n : NodeId) (t : TransportId) : (b.bind h n t).2.Truthful := by
  cases hn : b.node? n with
  | none => simpa only [bind, hn] using ht
  | some x =>
      by_cases hbound : t ∈ x.servers
      · simpa only [bind, hn, List.contains_iff_mem.2 hbound, if_true] using ht
      · have hcalled := called_offersOf hb.orderly h n x t
        rcases bind_cases hb h hn hbound with ⟨-, heq⟩ | ⟨e, -, heq⟩
        · have htold := hcalled.trans (called_told (hcalled.orderly hb.orderly) h n t x.managing)
          rw [heq]
          exact (ht.congr htold.has htold.owner?).adjustNode (Node.bindTo t)
            (fun _ => rfl) (Called.refl _)
        · rw [heq]
          exact ht.congr hcalled.has hcalled.owner?

theorem truthful_unbind (h : Host) (n : NodeId) (t : TransportId) :
    (b.unbind h n t).2.Truthful := by
  cases hn : b.node? n with
  | none => simpa only [unbind, hn] using ht
  | some x =>
      by_cases hbound : t ∈ x.servers
      · have hleft := withdraws_leave (hb.orderly.adjustNode n (Node.unbindFrom t)) h n
          (Entries.keys x.interfaces) x.managing.isSome [t]
        rw [← unbind_eq h hn hbound] at hleft
        exact ht.adjustNode (Node.unbindFrom t) (fun _ => rfl) hleft.called
      · have hno : x.servers.contains t = false := by simpa using hbound
        simpa only [unbind, hn, hno, Bool.not_false, if_true] using ht

theorem truthful_manage (h : Host) (n : NodeId) (object : Option ObjectId) :
    (b.manage h n object).Truthful := by
  cases hn : b.node? n with
  | none => simpa only [manage, hn] using ht
  | some x =>
      have hcalled := called_foldl_callManage (hb.orderly.adjustNode n (Node.manage object)) h n
        object (b.transportsOf x)
      rw [manage_eq h hb.orderly hn object]
      exact ht.adjustNode (Node.manage object) (fun _ => rfl) hcalled

theorem truthful_takeOut (i : InterfaceId) :
    ((Operation.takeOut i).apply levels b).Truthful := by
  cases hi : b.interface? i with
  | none => simpa only [Operation.apply, hi] using ht
  | some y =>
      simp only [Operation.apply, hi]
      split
      · exact ht
      · -- what the value believed, the one that has taken its place believes
        refine ht.of_steady (fun _ _ h => h) ?_
        rintro n k ⟨j, hj⟩
        obtain ⟨v, hv, ho, hname⟩ := owner?_eq_some.1 hj
        unfold movedOut at hv
        rw [interface?_newInstance] at hv
        split at hv
        · cases hv
          exact ⟨i, owner?_eq_some.2 ⟨y, hi, ho, hname⟩⟩
        · have hv : (b.forget i).interface? j = some v := hv
          rw [interface?_forget hb.orderly] at hv
          split at hv
          · cases hv
          · exact ⟨j, owner?_eq_some.2 ⟨v, hv, ho, hname⟩⟩

theorem truthful_grow (name : String) {parent : Option NodeId}
    (hp : ∀ p, parent = some p → (b.node? p).isSome) (servers : List TransportId) :
    (b.withForest (b.forest.grow name parent servers).2).Truthful :=
  ht.congr (has_grow hb name hp servers) fun _ => rfl

theorem truthful_makeChild (p : NodeId) (name : String) :
    ((Operation.makeChild p name).apply levels b).Truthful := by
  cases hp : b.node? p with
  | none => simpa only [Operation.apply, hp] using ht
  | some x =>
      simp only [Operation.apply, hp]
      refine truthful_grow hb ht name ?_ _
      rintro q ⟨⟩
      rw [hp]
      rfl

include hh

theorem truthful_dropNode_iff (n : NodeId) :
    ((Operation.dropNode n).apply levels b).Truthful ↔ ¬b.Abandons levels (.dropNode n) := by
  simp only [Operation.apply]
  cases hlive : b.isLiveNode n with
  | false =>
      rw [if_neg Bool.false_ne_true]
      refine iff_of_true ht ?_
      rintro ⟨i, m, k, -, -, -, -, x, hx, -⟩
      rw [hh.isLiveNode hx] at hlive
      cases hlive
  | true =>
      rw [if_pos rfl]
      obtain ⟨x, hx, -⟩ := exists_of_isLiveNode hlive
      by_cases hlast : x.handles = 1
      · rw [truthful_dropNode hb levels hx hh hlast ht]
        refine not_congr ⟨?_, ?_⟩
        · rintro ⟨j, k, hj, hhas⟩
          exact ⟨j, n, k, hj, hhas, not_false, rfl, x, hx, hlast⟩
        · rintro ⟨j, m, k, hj, hhas, -, rfl, -⟩
          exact ⟨j, k, hj, hhas⟩
      · rw [releaseNode_of_more levels hx hh hlast]
        refine iff_of_true (ht.handles n fun c => c - 1) ?_
        rintro ⟨i, m, k, -, -, -, -, x', hx', hlast'⟩
        rw [Option.some.inj (hx.symm.trans hx')] at hlast
        exact hlast hlast'

theorem truthful_dropInterface_iff (i : InterfaceId) :
    ((Operation.dropInterface i).apply levels b).Truthful ↔
      ¬b.Abandons levels (.dropInterface i) := by
  simp only [Operation.apply]
  cases hlive : b.isLiveInterface i with
  | false =>
      rw [if_neg Bool.false_ne_true]
      refine iff_of_true ht ?_
      rintro ⟨j, m, k, -, -, -, y, x, hy, -⟩
      rw [hh.isLiveInterface hy] at hlive
      cases hlive
  | true =>
      rw [if_pos rfl]
      obtain ⟨y, hy, -⟩ := exists_of_isLiveInterface hlive
      rw [truthful_releaseInterface hb hh levels hy ht]
      simp only [Abandons, Operation.LetsGo, TakesOff, ne_eq, eq_comm]

theorem truthful_detach_iff (n : NodeId) (name : String) :
    ((Operation.detach n name).apply levels b).Truthful ↔ ¬b.Abandons levels (.detach n name) := by
  simp only [Operation.apply]
  have habandons : b.Abandons levels (.detach n name) ↔
      ∃ j, b.owner? j = some (n, name) ∧ ¬b.Has n name j := by
    constructor
    · rintro ⟨j, m, k, hj, hhas, -, rfl, rfl⟩
      exact ⟨j, hj, hhas⟩
    · rintro ⟨j, hj, hhas⟩
      exact ⟨j, n, name, hj, hhas, not_false, rfl, rfl⟩
  rw [habandons]
  by_cases hlists : b.Lists n name
  · obtain ⟨i, x, hn, hk⟩ := hlists
    exact truthful_detach hb hh (.ofLevels (levels + 1)) hn hk ht
  · rw [detach_of_not_lists _ hlists]
    refine iff_of_true ht ?_
    rintro ⟨j, hj, -⟩
    exact hlists (ht n name ⟨j, hj⟩)

theorem truthful_makeInterface_iff (i : InterfaceId) (n : NodeId) :
    ((Operation.makeInterface i n).apply levels b).Truthful ↔
      ¬b.Abandons levels (.makeInterface i n) := by
  simp only [Operation.apply]
  cases hboth : b.isLooseInterface i && b.isLiveNode n with
  | false =>
      rw [if_neg Bool.false_ne_true]
      refine iff_of_true ht ?_
      rintro ⟨j, m, k, -, -, -, hloose, hlive, -⟩
      rw [hloose, hlive] at hboth
      cases hboth
  | true =>
      rw [if_pos rfl]
      rw [Bool.and_eq_true] at hboth
      obtain ⟨x, hx, -⟩ := exists_of_isLiveNode hboth.2
      obtain ⟨y, hy⟩ := exists_of_isLoose hboth.1
      rw [truthful_makeInterface hb hh levels hy hx ht]
      simp only [Loses, Abandons, Operation.LetsGo, TakesOff, ne_eq, hboth, true_and]
      refine not_congr (exists_congr fun j => exists_congr fun m => exists_congr fun k => ?_)
      rw [eq_comm (a := j)]

/-- **An operation leaves all values truthful if and only if it abandons none.** -/
theorem truthful_iff_not_abandons (op : Operation) :
    (op.apply levels b).Truthful ↔ ¬b.Abandons levels op := by
  -- most operations take no name off a node
  have hquiet : (∀ n k, ¬b.TakesOff levels op n k) → (op.apply levels b).Truthful →
      ((op.apply levels b).Truthful ↔ ¬b.Abandons levels op) := by
    refine fun hno ht' => iff_of_true ht' ?_
    rintro ⟨i, n, k, -, -, -, htakes⟩
    exact hno n k htakes
  cases op with
  | dropNode n => exact truthful_dropNode_iff hb hh levels ht n
  | makeInterface i n => exact truthful_makeInterface_iff hb hh levels ht i n
  | dropInterface i => exact truthful_dropInterface_iff hb hh levels ht i
  | detach n name => exact truthful_detach_iff hb hh levels ht n name
  | makeRoot name =>
      have hp : ∀ p, none = some p → (b.node? p).isSome := fun _ h => nomatch h
      exact hquiet (fun _ _ h => h) (truthful_grow hb ht name hp [])
  | makeChild parent name =>
      exact hquiet (fun _ _ h => h) (truthful_makeChild hb levels ht parent name)
  | holdNode n =>
      exact hquiet (fun _ _ h => h) (ht.handles n fun c => c + 1)
  | build interface =>
      exact hquiet (fun _ _ h => h)
        (ht.congr (fun _ _ _ => Iff.rfl) (owner?_newInstance hb rfl))
  | takeOut i => exact hquiet (fun _ _ h => h) (truthful_takeOut hb levels ht i)
  | holdInterface i =>
      refine hquiet (fun _ _ h => h) ?_
      simp only [Operation.apply]
      split
      · exact ht
      · exact ht.congr (fun _ _ _ => Iff.rfl) fun j => owner?_adjustInterface i j fun _ => ⟨rfl, rfl⟩
  | bind n t =>
      refine hquiet (fun _ _ h => h) ?_
      simp only [Operation.apply]
      split
      · exact truthful_bind hb ht _ n t
      · exact ht
  | unbind n t =>
      refine hquiet (fun _ _ h => h) ?_
      simp only [Operation.apply]
      split
      · exact truthful_unbind hb ht _ n t
      · exact ht
  | manage n object => exact hquiet (fun _ _ h => h) (truthful_manage hb ht _ n object)
  | openLoopback settings =>
      refine hquiet (fun _ _ h => h) ?_
      simp only [Operation.apply]
      split <;> exact ht
  | openRecorder label root => exact hquiet (fun _ _ h => h) ht
  | holdTransport t =>
      refine hquiet (fun _ _ h => h) ?_
      simp only [Operation.apply]
      split <;> exact ht
  | dropTransport t => exact hquiet (fun _ _ h => h) ht

end Step

/-! ## Runs -/

/-- **An operation that abandons no value.** -/
abbrev AbandonsNothing (levels : Nat) (b : Bus) (op : Operation) : Prop := ¬b.Abandons levels op

theorem truthful_of_reaches {levels : Nat} {b : Bus}
    (hb : b.Reaches levels (AbandonsNothing levels)) : b.Truthful := by
  induction hb with
  | empty =>
      rintro n k ⟨i, hi⟩
      cases hi
  | step op hb hop ih =>
      obtain ⟨hsound, hheld⟩ := hb.reachable.sound_held
      exact (truthful_iff_not_abandons hsound hheld levels ih op).2 hop
  | elsewhere hb hu ih =>
      exact ih.congr (fun n k i => by rw [Has, Has, hu.node?]) hu.owner?

/-- **Being attached is the truth.** As long as no operation abandons a value, every value that
believes to be attached is told so by its node, which is live and has its name; the next operation
leaves all values truthful if and only if it abandons none; and then no value believes to have a name
that was dropped from its node, or a node that was destroyed. -/
theorem attached_values_are_truthful {levels : Nat} {b : Bus}
    (hb : b.Reaches levels (AbandonsNothing levels)) :
    (∀ i y n, b.interface? i = some y → y.owner = some n → b.isLiveNode n = true ∧
      ∃ x j, b.node? n = some x ∧ Entries.get? y.interface.name x.interfaces = some j) ∧
    (∀ op, (op.apply levels b).Truthful ↔ AbandonsNothing levels b op) ∧
    (∀ n k i, AbandonsNothing levels b (.detach n k) →
      ((Operation.detach n k).apply levels b).owner? i ≠ some (n, k)) ∧
    ∀ n x i k, b.node? n = some x → x.handles = 1 → AbandonsNothing levels b (.dropNode n) →
      ((Operation.dropNode n).apply levels b).owner? i ≠ some (n, k) := by
  obtain ⟨hsound, hheld⟩ := hb.reachable.sound_held
  have ht := truthful_of_reaches hb
  have hnext := truthful_iff_not_abandons hsound hheld levels ht
  refine ⟨fun i y n hi ho => ?_, hnext, fun n k i hno hi => ?_, fun n x i k hn hlast hno hi => ?_⟩
  · obtain ⟨j, x, hx, hk⟩ := ht n y.interface.name ⟨i, owner?_eq_some.2 ⟨y, hi, ho, rfl⟩⟩
    exact ⟨hheld.isLiveNode hx, x, j, hx, hk⟩
  · exact not_lists_detach hsound hheld (.ofLevels (levels + 1)) n k
      ((hnext (.detach n k)).2 hno n k ⟨i, hi⟩)
  · have hlists := (hnext (.dropNode n)).2 hno n k ⟨i, hi⟩
    simp only [Operation.apply, hheld.isLiveNode hn, if_true] at hlists
    exact not_lists_dropNode hsound levels hn hlast k hlists

/-- A node has a value, which is moved out of its handle. -/
def movedOutOnce : Bus :=
  after 0 [.makeRoot "n", .build { name := "I" }, .makeInterface 0 0, .takeOut 0]

/-- The value that was moved out tells the truth, until the name is dropped: it is not told. -/
theorem truthful_until_dropped :
    (∃ x j, movedOutOnce.node? 0 = some x ∧ Entries.get? "I" x.interfaces = some j) ∧
      movedOutOnce.owner? 1 = some (0, "I") ∧
      ¬((Operation.detach 0 "I").apply 0 movedOutOnce).Truthful := by
  -- on the way, no value believes anything when a name might be taken off a node
  have hroot : (after 0 [.makeRoot "n"]).Reachable 0 := reaches_after fun _ _ _ => trivial
  have hnone : ∀ i, (after 0 [.makeRoot "n", .build { name := "I" }]).owner? i = none := fun i =>
    owner?_newInstance hroot.sound_held.1 (v := { interface := { name := "I" } }) rfl i
  have hb : movedOutOnce.Reaches 0 (AbandonsNothing 0) := by
    have hstart : (after 0 [.makeRoot "n", .build { name := "I" }]).Reaches 0 (AbandonsNothing 0) :=
      (Reaches.empty.step (.makeRoot "n") fun ⟨_, _, _, _, _, _, h⟩ => h).step
        (.build { name := "I" }) fun ⟨_, _, _, _, _, _, h⟩ => h
    refine (hstart.step (.makeInterface 0 0) ?_).step (.takeOut 0) fun ⟨_, _, _, _, _, _, h⟩ => h
    rintro ⟨i, n, k, hi, -⟩
    rw [hnone] at hi
    cases hi
  have howner : movedOutOnce.owner? 1 = some (0, "I") := by decide +kernel
  obtain ⟨y, hy, ho, hname⟩ := owner?_eq_some.1 howner
  obtain ⟨-, x, j, hx, hj⟩ := (attached_values_are_truthful hb).1 1 y 0 hy ho
  refine ⟨⟨x, j, hx, hname ▸ hj⟩, howner, fun ht => ?_⟩
  refine ((attached_values_are_truthful hb).2.1 (.detach 0 "I")).1 ht
    ⟨1, 0, "I", howner, ?_, not_false, rfl, rfl⟩
  rintro ⟨x', hx', hk⟩
  have hentry : (movedOutOnce.node? 0).bind (fun x => Entries.get? "I" x.interfaces) = some 0 := by
    decide +kernel
  rw [hx', Option.bind_some, hk] at hentry
  cases hentry

end Bus

end ObjectBus
