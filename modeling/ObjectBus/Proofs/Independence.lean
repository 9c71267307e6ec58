import ObjectBus.Proofs.Trie.Branches
import ObjectBus.Proofs.Share.Parties

/-!
# Parties that keep out of each other's way

Two parties work on one loopback transport, each on trees, interface values and objects of its own. As
long as no node of the one ever stands where a node of the other ever stands, the order in which they
take their steps does not matter (`Scene.independent_parties_commute`): every step has the same answer,
and the registry, the names of the branches at every address and the managed objects are the same in
the end, as if the one had waited until the other was done.

The addresses themselves may lie above and below each other, so both registries share branches. Each
party is compared with itself alone: along a run of both, what it has stands in the bus as it does in
the run of its own steps (`Scene.Standing`), one step at a time.
-/

set_option autoImplicit false

namespace ObjectBus

/-- A number that tells the parties apart. -/
def Side.parity : Side → Fin 2
  | left => 0
  | right => 1

theorem Side.parity_injective : Function.Injective Side.parity := by
  intro s o h
  cases s <;> cases o <;> first | rfl | exact absurd h (by decide)

/-- The first of the ids that are given out becomes the first one. -/
theorem apply_of_map_idsBetween {f : Nat → Nat} {a b c d : Nat}
    (h : (idsBetween a b).map f = idsBetween c d) (hlt : a < b) : f a = c := by
  have hlen : b - a = d - c := by
    have hlen := congrArg List.length h
    rwa [List.length_map, length_idsBetween, length_idsBetween] at hlen
  rw [idsBetween_eq_cons hlt, idsBetween_eq_cons (show c < d by omega), List.map_cons] at h
  exact (List.cons.inj h).1

/-- What was there already is left out of the comparison. -/
theorem map_idsBetween_of_append {f : Nat → Nat} {had had' : List Nat} {a b c d : Nat}
    (hhad : had' = had.map f)
    (h : had' ++ idsBetween c d = (had ++ idsBetween a b).map f) :
    (idsBetween a b).map f = idsBetween c d := by
  rw [List.map_append, hhad] at h
  exact (List.append_cancel_left h).symm

namespace Scene

/-! ## What can be seen -/

/-- **Who made a node**, and which one of this party's nodes it is. -/
def maker? (sc : Scene) (n : NodeId) : Option (Side × Nat) :=
  match (sc.nodes .left).idxOf? n with
  | some k => some (.left, k)
  | none => ((sc.nodes .right).idxOf? n).map fun k => (.right, k)

/-- What is registered at an address: for which node, told by who made it, and under which names. -/
def credited (sc : Scene) (r : Occupant) : Option (Option (Side × Nat)) × Members String :=
  (r.node.map sc.maker?, r.interfaces)

/-- **Two runs have come to the same**: both parties were told the same, step by step, and the
transport has the same registry, the same branches and the same managed objects. -/
structure Agree (sc sc' : Scene) : Prop where
  answers : ∀ s, sc.answers s = sc'.answers s
  transports : ∃ l l', sc.bus.loopback? sharedTransport = some l ∧
    sc'.bus.loopback? sharedTransport = some l' ∧
    (∀ a, (l.registry.get? a).map sc.credited = (l'.registry.get? a).map sc'.credited) ∧
    (∀ a, l.registry.branchNames a = l'.registry.branchNames a) ∧
    l.managed = l'.managed

section Makers

variable {sc : Scene}

theorem maker?_of_getElem? (h : sc.Orderly) {s : Side} {k n : Nat}
    (hk : (sc.nodes s)[k]? = some n) : sc.maker? n = some (s, k) := by
  have hfirst : (sc.nodes s).idxOf? n = some k := by
    obtain ⟨hlen, heq⟩ := List.getElem?_eq_some_iff.1 hk
    refine List.idxOf?_eq_some_iff.2 ⟨hlen, heq, fun j hj hjn => ?_⟩
    exact Nat.ne_of_lt hj ((h.nodes.nodup s).getElem_inj_iff.1 (hjn.trans heq.symm))
  have hmem := List.mem_of_getElem? hk
  unfold maker?
  cases s with
  | left => rw [hfirst]
  | right =>
      rw [List.idxOf?_eq_none_iff.2 (h.nodes.apart .right .left (by decide) n hmem), hfirst]
      rfl

theorem maker?_of_not_mem {n : NodeId} (h : ∀ s, n ∉ sc.nodes s) : sc.maker? n = none := by
  rw [maker?, List.idxOf?_eq_none_iff.2 (h .left), List.idxOf?_eq_none_iff.2 (h .right)]
  rfl

end Makers

/-! ## Each party stands where it stands alone -/

/-- **Both parties stand in a scene** as each of them stands in a scene of its own, and nobody else
does. -/
structure Standing (p : Side → Share) (alone : Side → Scene) (sc : Scene) : Prop where
  embeds : ∀ s, Bus.Embeds (p s) sharedTransport sc.bus (alone s).bus sc.bus
  nodes : ∀ s, sc.nodes s = ((alone s).nodes s).map (p s).nodeId
  values : ∀ s, sc.values s = ((alone s).values s).map (p s).valueId
  answers : ∀ s, sc.answers s = (alone s).answers s
  vacant : ∀ l, sc.bus.loopback? sharedTransport = some l → ∀ a, (∀ s, ¬(p s).owns a) →
    l.registry.get? a = none ∧ Entries.get? a l.managed = none

namespace Standing

variable {p : Side → Share} {alone alone' : Side → Scene} {sc : Scene} {levels : Nat}

theorem operation?_eq (h : Standing p alone sc) (s : Side) (step : Step) :
    step.operation? (sc.nodes s) (sc.values s) =
      (step.operation? ((alone s).nodes s) ((alone s).values s)).map (·.under (p s)) := by
  rw [h.nodes, h.values, step.operation?_under]

/-- A party asks for something that is not there yet. -/
theorem idle (h : Standing p alone sc) {s : Side} {step : Step}
    (hstep : step.operation? ((alone s).nodes s) ((alone s).values s) = none)
    (hself : alone' s = (alone s).step levels (s, step)) (hothers : ∀ o, o ≠ s → alone' o = alone o) :
    Standing p alone' (sc.step levels (s, step)) := by
  have hunder := h.operation?_eq s step
  rw [hstep] at hunder
  rw [step_of_none hstep] at hself
  rw [step_of_none hunder]
  have hsame : ∀ o, (alone' o).bus = (alone o).bus ∧ (alone' o).nodes = (alone o).nodes ∧
      (alone' o).values = (alone o).values := by
    refine Side.forall_of_ne s ?_ fun o ho => ?_
    · rw [hself]
      exact ⟨rfl, rfl, rfl⟩
    · rw [hothers o ho]
      exact ⟨rfl, rfl, rfl⟩
  refine ⟨fun o => ?_, fun o => ?_, fun o => ?_, Side.forall_of_ne s ?_ fun o ho => ?_, h.vacant⟩
  · rw [(hsame o).1]
    exact h.embeds o
  · rw [(hsame o).2.1]
    exact h.nodes o
  · rw [(hsame o).2.2]
    exact h.values o
  · simp only [hself, Side.more_self, h.answers]
  · rw [hothers o ho]
    exact (Side.more_of_ne s _ _ ho).trans (h.answers o)

section Acts

variable (h : Standing p alone sc) (hsc : sc.Orderly) (halone : ∀ s, (alone s).Orderly)
  {s : Side} {step : Step} {op : Operation}
  (hstep : step.operation? ((alone s).nodes s) ((alone s).values s) = some op)

include h hsc halone

/-- As many ids are given out in the one as in the other. -/
theorem length_idsBetween_eq (levels : Nat) (s : Side) (op : Operation) :
    ((op.under (p s)).apply levels sc.bus).forest.next - sc.bus.forest.next =
        (op.apply levels (alone s).bus).forest.next - (alone s).bus.forest.next ∧
      ((op.under (p s)).apply levels sc.bus).next - sc.bus.next =
        (op.apply levels (alone s).bus).next - (alone s).bus.next := by
  have E := h.embeds s
  obtain ⟨hforest, hnext⟩ := Bus.next_apply (halone s).sound (halone s).held levels op
  obtain ⟨hforest', hnext'⟩ := Bus.next_apply hsc.sound hsc.held levels (op.under (p s))
  constructor
  · rw [hforest, hforest', E.nodesMade, Nat.add_sub_cancel_left, Nat.add_sub_cancel_left]
  · rw [hnext, hnext', E.othersMade, Nat.add_sub_cancel_left, Nat.add_sub_cancel_left]

include hstep

/-- **A party does something.** If the ids that are given out are those of its share, it stands where it
stands alone, and the other one stays. -/
theorem acts (hapart : ∀ o, s ≠ o → (p s).Apart (p o))
    (hself : alone' s = (alone s).step levels (s, step)) (hothers : ∀ o, o ≠ s → alone' o = alone o)
    (hown : (p s).Houses (alone s).bus sharedTransport)
    (hafter : (p s).Houses (alone' s).bus sharedTransport)
    (hnodes : ((sc.step levels (s, step)).nodes s).length = ((alone' s).nodes s).length →
      (sc.step levels (s, step)).nodes s = ((alone' s).nodes s).map (p s).nodeId)
    (hvalues : ((sc.step levels (s, step)).values s).length = ((alone' s).values s).length →
      (sc.step levels (s, step)).values s = ((alone' s).values s).map (p s).valueId) :
    Standing p alone' (sc.step levels (s, step)) := by
  have hunder := h.operation?_eq s step
  rw [hstep] at hunder
  obtain ⟨hmade, hmade'⟩ := h.length_idsBetween_eq hsc halone levels s op
  rw [step_of_some hstep] at hself
  rw [hself] at hafter
  rw [step_of_some hunder, hself] at hnodes hvalues
  rw [step_of_some hunder]
  simp only [Side.more_self, List.length_append, length_idsBetween] at hnodes hvalues
  replace hnodes := hnodes (by rw [h.nodes, List.length_map, hmade])
  replace hvalues := hvalues (by rw [h.values, List.length_map, hmade'])
  -- so the next ids are those of the share
  have hnode := map_idsBetween_of_append (h.nodes s) hnodes
  have hvalue := map_idsBetween_of_append (h.values s) hvalues
  obtain ⟨hanswer, E⟩ := (h.embeds s).apply (halone s).sound hsc.sound (halone s).held hsc.held
    levels (Step.isAbout_of_operation? hstep) hown hafter (apply_of_map_idsBetween hnode)
    (apply_of_map_idsBetween hvalue)
  refine ⟨Side.forall_of_ne s ?_ fun o ho => ?_, Side.forall_of_ne s ?_ fun o ho => ?_,
    Side.forall_of_ne s ?_ fun o ho => ?_, Side.forall_of_ne s ?_ fun o ho => ?_,
    fun l hl a ha => ?_⟩
  · rw [hself]
    exact E.rested
  · rw [hothers o ho]
    exact (h.embeds o).beside E (hapart o (Ne.symm ho))
  · simpa only [hself, Side.more_self] using hnodes
  · rw [hothers o ho]
    exact (Side.more_of_ne s _ _ ho).trans (h.nodes o)
  · simpa only [hself, Side.more_self] using hvalues
  · rw [hothers o ho]
    exact (Side.more_of_ne s _ _ ho).trans (h.values o)
  · simp only [hself, Side.more_self, h.answers, hanswer]
  · rw [hothers o ho]
    exact (Side.more_of_ne s _ _ ho).trans (h.answers o)
  · -- nothing has happened at an address of nobody
    obtain ⟨l₀, l₁, r, -, hl₁, hr, hE⟩ := E.loopbacks
    obtain rfl : l = l₁ := Option.some.inj (hl.symm.trans hl₁)
    rw [(hE.others a (ha s)).1, (hE.others a (ha s)).2]
    exact h.vacant r hr a ha

end Acts

end Standing

/-! ## The shares of a run -/

section Shares

variable (levels : Nat) {l : Loopback} (hl : l.Orderly) (moves : List (Side × Step))

/-- **The share of a party in a run of both**: the ids that its things have got, and the addresses
where its nodes are when it is alone. -/
def share (s : Side) : Share where
  nodeId := numbering 0 ((run levels l moves).nodes s) (run levels l moves).bus.forest.next s.parity
  valueId := numbering 1 ((run levels l moves).values s) (run levels l moves).bus.next s.parity
  owns a := a ∈ visited levels l (own s moves)
  nodeId_injective :=
    let made := (orderly_run levels hl moves).nodes
    numbering_injective (made.nodup s) (made.below s)
  valueId_injective :=
    let made := (orderly_run levels hl moves).values
    numbering_injective (made.nodup s) (made.below s)

theorem apart_share {s o : Side} (hso : s ≠ o)
    (hapart : ∀ a ∈ visited levels l (own o moves), a ∉ visited levels l (own s moves)) :
    (share levels hl moves s).Apart (share levels hl moves o) where
  nodes n m := by
    have made := (orderly_run levels hl moves).nodes
    exact numbering_ne (made.below s) (made.below o) (made.apart s o hso)
      (Side.parity_injective.ne hso) m n
  values i j := by
    have made := (orderly_run levels hl moves).values
    exact numbering_ne (made.below s) (made.below o) (made.apart s o hso)
      (Side.parity_injective.ne hso) j i
  owns := hapart

variable {levels moves}

theorem houses_run {s : Side} {front : List (Side × Step)} (hfront : front <+: own s moves) :
    (share levels hl moves s).Houses (run levels l front).bus sharedTransport := by
  intro n a hat
  exact List.mem_flatMap.2 ⟨front, (List.mem_inits _ _).2 hfront, hat.mem_addressesOn⟩

/-- **What a party has got are its things under the ids of its share**, if they are as many as it has
alone. -/
theorem eq_map_share (levels : Nat) {l : Loopback} (hl : l.Orderly) {front : List (Side × Step)} (hfront : front <+: moves) (s : Side) :
    (((run levels l front).nodes s).length = ((run levels l (own s front)).nodes s).length →
      (run levels l front).nodes s =
        ((run levels l (own s front)).nodes s).map (share levels hl moves s).nodeId) ∧
    (((run levels l front).values s).length = ((run levels l (own s front)).values s).length →
      (run levels l front).values s =
        ((run levels l (own s front)).values s).map (share levels hl moves s).valueId) := by
  obtain ⟨hnodes, -, hvalues⟩ := alone_run levels hl fun move (hmove : move ∈ own s front) => of_mem_own hmove
  obtain ⟨hpre, hpre'⟩ := prefix_run levels l hfront s
  rw [hnodes, hvalues, length_idsBetween, length_idsBetween]
  exact ⟨fun hlen => (map_numbering hpre hlen).symm, fun hlen => (map_numbering hpre' hlen).symm⟩

end Shares

/-! ## Runs of both -/

section Runs

variable {levels : Nat} {l : Loopback} (hl : l.Orderly) (hregistry : l.registry = .empty)
  (hmanaged : l.managed = []) {moves : List (Side × Step)}
  (hapart : ∀ s o, s ≠ o →
    ∀ a ∈ visited levels l (own o moves), a ∉ visited levels l (own s moves))

include hregistry hmanaged hapart

/-- **In a run of both, each party stands where it stands alone**, after every step. -/
theorem standing_run {front : List (Side × Step)} (hfront : front <+: moves) :
    Standing (share levels hl moves) (fun s => run levels l (own s front)) (run levels l front) := by
  induction front using List.reverseRecOn with
  | nil =>
      -- nobody has done anything, so nothing is registered
      have hnone : ∀ a, l.registry.get? a = none := by
        intro a
        rw [hregistry, Trie.get?_eq_find?, Trie.find?_empty]
      refine ⟨fun s => Bus.embeds_newTransport _ hl hnone hmanaged, fun _ => rfl, fun _ => rfl,
        fun _ => rfl, fun l' hl' a _ => ?_⟩
      obtain rfl : l = l' := Option.some.inj hl'
      rw [hmanaged]
      exact ⟨hnone a, rfl⟩
  | append_singleton front move ih =>
      obtain ⟨s, step⟩ := move
      have hst := ih ((List.prefix_append _ _).trans hfront)
      -- the same step is taken by the party alone; the other one, alone, takes none
      have hself : run levels l (own s (front ++ [(s, step)])) =
          (run levels l (own s front)).step levels (s, step) := by
        rw [own_concat_self, run_concat]
      have hothers : ∀ o, o ≠ s → run levels l (own o (front ++ [(s, step)])) =
          run levels l (own o front) := by
        intro o ho
        rw [own_concat_of_ne front ho]
      have hids := eq_map_share levels hl hfront s
      rw [run_concat] at hids ⊢
      cases hstep : step.operation? ((run levels l (own s front)).nodes s)
          ((run levels l (own s front)).values s) with
      | none => exact hst.idle hstep hself hothers
      | some op =>
          have hown : own s (front ++ [(s, step)]) <+: own s moves := hfront.filter _
          have hbefore : own s front <+: own s moves :=
            ((List.prefix_append _ _).trans hfront).filter _
          exact hst.acts (orderly_run levels hl front) (fun o => orderly_run levels hl (own o front)) hstep
            (fun o ho => apart_share levels hl moves ho (hapart s o ho)) hself hothers
            (houses_run hl hbefore) (houses_run hl hown) hids.1 hids.2

/-- **Among others a node stands where it stands alone.** -/
theorem address_run {s : Side} {k m n : Nat} (hm : ((run levels l moves).nodes s)[k]? = some m)
    (hn : ((run levels l (own s moves)).nodes s)[k]? = some n) :
    (run levels l moves).bus.addressOn m sharedTransport =
      (run levels l (own s moves)).bus.addressOn n sharedTransport := by
  have hl : l.Orderly := Loopback.orderly_of_vacant hregistry hmanaged
  have hst := standing_run hl hregistry hmanaged hapart (List.prefix_refl moves)
  rw [hst.nodes s, List.getElem?_map, hn] at hm
  obtain rfl := Option.some.inj hm
  exact (hst.embeds s).addressOn n

/-- **The maker of a node of a share**: the party, if the node was made in the run at all. -/
theorem maker?_share (s : Side) (n : NodeId) :
    (run levels l moves).maker? ((share levels hl moves s).nodeId n) =
      if n < ((run levels l (own s moves)).nodes s).length then some (s, n) else none := by
  have horderly := orderly_run levels hl moves
  have hlen : ((run levels l (own s moves)).nodes s).length = ((run levels l moves).nodes s).length := by
    rw [(standing_run hl hregistry hmanaged hapart (List.prefix_refl moves)).nodes s,
      List.length_map]
  rw [hlen]
  rcases numbering_cases 0 ((run levels l moves).nodes s) (run levels l moves).bus.forest.next
    s.parity n with ⟨-, hget⟩ | ⟨hbeyond, heq⟩
  · have hlt := (List.getElem?_eq_some_iff.1 hget).1
    rw [Nat.sub_zero] at hget hlt
    rw [if_pos hlt]
    exact maker?_of_getElem? horderly hget
  · have hle : ((run levels l moves).nodes s).length ≤ n := hbeyond (Nat.zero_le n)
    rw [if_neg (Nat.not_lt.2 hle)]
    refine maker?_of_not_mem fun o ho => ?_
    -- an id beyond all that are given out
    have hlt : numbering 0 ((run levels l moves).nodes s) (run levels l moves).bus.forest.next
        s.parity n < (run levels l moves).bus.forest.next := horderly.nodes.below o _ ho
    omega

/-- **What is seen where a party has been** is what is seen there when this party is alone. -/
theorem seen_run {l₁ : Loopback}
    (hl₁ : (run levels l moves).bus.loopback? sharedTransport = some l₁) {a : Address} {s : Side}
    (ha : a ∈ visited levels l (own s moves)) :
    ∃ l₀, (run levels l (own s moves)).bus.loopback? sharedTransport = some l₀ ∧
      (l₁.registry.get? a).map (run levels l moves).credited =
        (l₀.registry.get? a).map (fun r => (r.node.map fun n =>
          if n < ((run levels l (own s moves)).nodes s).length then some (s, n) else none,
          r.interfaces)) ∧
      Entries.get? a l₁.managed = Entries.get? a l₀.managed := by
  have hl : l.Orderly := Loopback.orderly_of_vacant hregistry hmanaged
  have hst := standing_run hl hregistry hmanaged hapart (List.prefix_refl moves)
  obtain ⟨l₀, l₂, r, hl₀, hl₂, -, hE⟩ := (hst.embeds s).loopbacks
  obtain rfl : l₁ = l₂ := Option.some.inj (hl₁.symm.trans hl₂)
  refine ⟨l₀, hl₀, ?_, hE.managed a ha⟩
  rw [hE.occupants a ha, Option.map_map]
  refine Option.map_congr fun r _ => ?_
  simp only [Function.comp_apply, credited, Share.occupant, Option.map_map]
  refine congrArg (·, r.interfaces) (Option.map_congr fun n _ => ?_)
  exact maker?_share hl hregistry hmanaged hapart s n

end Runs

/-- **Any two orders of the same steps agree**, if the parties keep out of each other's way. -/
theorem agree_of_own {levels : Nat} {l : Loopback} (hregistry : l.registry = .empty)
    (hmanaged : l.managed = []) {moves moves' : List (Side × Step)}
    (hsame : ∀ s, own s moves' = own s moves)
    (hapart : ∀ s o, s ≠ o →
      ∀ a ∈ visited levels l (own o moves), a ∉ visited levels l (own s moves)) :
    (run levels l moves).Agree (run levels l moves') := by
  have hl : l.Orderly := Loopback.orderly_of_vacant hregistry hmanaged
  have hapart' : ∀ s o, s ≠ o →
      ∀ a ∈ visited levels l (own o moves'), a ∉ visited levels l (own s moves') := by
    intro s o hso
    rw [hsame, hsame]
    exact hapart s o hso
  have hst := standing_run hl hregistry hmanaged hapart (List.prefix_refl moves)
  have hst' := standing_run hl hregistry hmanaged hapart' (List.prefix_refl moves')
  obtain ⟨_, l₁, _, -, hl₁, -, -⟩ := (hst.embeds .left).loopbacks
  obtain ⟨_, l₂, _, -, hl₂, -, -⟩ := (hst'.embeds .left).loopbacks
  -- at every address, both see what a party sees alone
  have hseen : ∀ a, (l₁.registry.get? a).map (run levels l moves).credited =
      (l₂.registry.get? a).map (run levels l moves').credited ∧
      Entries.get? a l₁.managed = Entries.get? a l₂.managed := by
    intro a
    by_cases ha : ∃ s, a ∈ visited levels l (own s moves)
    · obtain ⟨s, ha⟩ := ha
      have ha' : a ∈ visited levels l (own s moves') := (hsame s).symm ▸ ha
      obtain ⟨l₀, hl₀, hregistered, hmanages⟩ := seen_run hregistry hmanaged hapart hl₁ ha
      obtain ⟨l₀', hl₀', hregistered', hmanages'⟩ := seen_run hregistry hmanaged hapart' hl₂ ha'
      rw [hsame] at hl₀' hregistered'
      obtain rfl : l₀ = l₀' := Option.some.inj (hl₀.symm.trans hl₀')
      exact ⟨hregistered.trans hregistered'.symm, hmanages.trans hmanages'.symm⟩
    · rw [not_exists] at ha
      have ha' : ∀ s, a ∉ visited levels l (own s moves') := fun s => (hsame s).symm ▸ ha s
      obtain ⟨hnone, hfree⟩ := hst.vacant l₁ hl₁ a ha
      obtain ⟨hnone', hfree'⟩ := hst'.vacant l₂ hl₂ a ha'
      rw [hnone, hnone', hfree, hfree']
      exact ⟨rfl, rfl⟩
  have horderly₁ := (orderly_run levels hl moves).sound.orderly.loopbacks sharedTransport l₁ hl₁
  have horderly₂ := (orderly_run levels hl moves').sound.orderly.loopbacks sharedTransport l₂ hl₂
  refine ⟨fun s => ?_, l₁, l₂, hl₁, hl₂, fun a => (hseen a).1, ?_, ?_⟩
  · rw [hst.answers, hst'.answers, hsame]
  · -- a branch is there because something is registered below
    refine horderly₁.tidy.branchNames_congr horderly₂.tidy fun a => ?_
    have hsome := congrArg Option.isSome (hseen a).1
    simpa only [Option.isSome_map] using hsome
  · exact Entries.eq_of_get? horderly₁.managed horderly₂.managed fun a => (hseen a).2

/-- **Independent parties commute.** Two parties take steps on a loopback transport that holds nothing
at first, and no address where a node of the one ever is is one where a node of the other ever is. Then
whatever order their steps are taken in, every step is answered, and everything is registered and
managed in the end, as if one of them had begun after the other was done. -/
theorem independent_parties_commute {levels : Nat} {l : Loopback} (hregistry : l.registry = .empty)
    (hmanaged : l.managed = []) (moves : List (Side × Step))
    (hapart : ∀ a ∈ visited levels l (own .left moves), a ∉ visited levels l (own .right moves))
    (first : Side) :
    (run levels l moves).Agree (run levels l (own first moves ++ own first.other moves)) := by
  have hboth : ∀ s, own s (own first moves ++ own first.other moves) = own s moves := by
    intro s
    rw [own, List.filter_append, ← own, ← own]
    cases s <;> cases first
    · rw [Side.other, own_own, own_own_of_ne (by decide), List.append_nil]
    · rw [Side.other, own_own, own_own_of_ne (by decide), List.nil_append]
    · rw [Side.other, own_own, own_own_of_ne (by decide), List.nil_append]
    · rw [Side.other, own_own, own_own_of_ne (by decide), List.append_nil]
  refine agree_of_own hregistry hmanaged hboth fun s o hso a ha ha' => ?_
  cases s <;> cases o
  · exact hso rfl
  · exact hapart a ha' ha
  · exact hapart a ha ha'
  · exact hso rfl

/-- Two parties whose branches cross: one is at `/a`, the other below it, where a node goes and lets the
one below it come closer. -/
def crossing : List (Side × Step) :=
  [(.left, .makeRoot "a"), (.right, .makeRoot "a"), (.left, .makeChild 0 "b"), (.right, .bind 0),
    (.left, .makeChild 1 "c"), (.right, .build { name := "y" }), (.left, .bind 1), (.left, .bind 2),
    (.left, .build { name := "x" }), (.right, .attach 0 0), (.left, .attach 0 2),
    (.right, .manage 0 (some 7)), (.left, .manage 2 (some 8)), (.left, .dropNode 1),
    (.right, .detach 0 "y"), (.left, .attach 1 2)]

theorem independent_parties_commute_when_crossing :
    (∀ a ∈ visited 0 { name := "local", root := "/" } (own .left crossing),
        a ∉ visited 0 { name := "local", root := "/" } (own .right crossing)) ∧
      (⟨["a", "c"]⟩ ∈ visited 0 { name := "local", root := "/" } (own .left crossing)) ∧
      (⟨["a"]⟩ ∈ visited 0 { name := "local", root := "/" } (own .right crossing)) ∧
      (run 0 { name := "local", root := "/" } crossing).Agree
        (run 0 { name := "local", root := "/" } (own .left crossing ++ own .right crossing)) := by
  have hapart : ∀ a ∈ visited 0 { name := "local", root := "/" } (own .left crossing),
      a ∉ visited 0 { name := "local", root := "/" } (own .right crossing) := by decide +kernel
  exact ⟨hapart, by decide +kernel, by decide +kernel,
    independent_parties_commute rfl rfl crossing hapart .left⟩

end Scene

end ObjectBus
