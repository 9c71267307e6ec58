import ObjectBus.Proofs.Callbacks.Commands
import ObjectBus.Proofs.Forest.Gaps

/-!
# Handles of nodes, while transports call back

A node lives as long as a handle to it is held, by a name or by an operation. `Bus.Tended` is the
account: whoever is entitled to a handle finds it counted, and a node whose destruction has begun has
no handles, but stays in the forest until its links are rewritten. So no node is destroyed twice, even
if commands that run on the way let go of it, and the links stay coherent (`Forest.Coherent`), which
whatever happens then may count on (`Forest.Succeeds`).

`Bus.Tends` is the law that follows: it holds from before to after everything that a host does
(`Host.careful_ofLevels`).
-/

set_option autoImplicit false

namespace ObjectBus

namespace Bus

/-- How many handles to a node are held; none to one that is not there. -/
def handlesOf (b : Bus) (n : NodeId) : Nat := (b.node? n).elim 0 Node.handles

/-- **Nodes are tended**: names of nodes and those to whom a handle is owed have their handles, and nodes
that are dying are there without handles. -/
structure Tended (dying : NodeId → Prop) (owed : List NodeId) (b : Bus) : Prop where
  coherent : b.forest.Coherent
  names : Entries.Sorted b.desk.nodes
  counted : ∀ n, (Entries.values b.desk.nodes).count n + owed.count n ≤ b.handlesOf n
  dying : ∀ {n}, dying n → ∃ x, b.node? n = some x ∧ x.handles = 0

/-- **Anything that tends nodes**, whoever is dying meanwhile, and to whomever handles are owed. -/
def Tends (b b' : Bus) : Prop :=
  ∀ dying owed, b.Tended dying owed → b'.Tended dying owed ∧ b.forest.Succeeds b'.forest

theorem handlesOf_eq {b : Bus} {n : NodeId} {x : Node} (hn : b.node? n = some x) :
    b.handlesOf n = x.handles := by
  rw [handlesOf, hn]
  rfl

theorem exists_of_handlesOf {b : Bus} {n : NodeId} (h : 0 < b.handlesOf n) :
    ∃ x, b.node? n = some x := by
  unfold handlesOf at h
  cases hn : b.node? n with
  | none => simp [hn] at h
  | some x => exact ⟨x, rfl⟩

theorem isLiveNode_iff_handlesOf {b : Bus} {n : NodeId} :
    b.isLiveNode n = true ↔ 0 < b.handlesOf n := by
  unfold isLiveNode Forest.isLive handlesOf node?
  cases b.forest.get? n <;> simp

namespace Tended

variable {dying : NodeId → Prop} {owed : List NodeId} {b : Bus}

/-- Less may be owed, and fewer may be dying. -/
theorem mono (hb : b.Tended dying owed) {dying' : NodeId → Prop} {owed' : List NodeId}
    (hdying : ∀ n, dying' n → dying n) (howed : ∀ n, owed'.count n ≤ owed.count n) :
    b.Tended dying' owed' where
  coherent := hb.coherent
  names := hb.names
  counted n := Nat.le_trans (Nat.add_le_add_left (howed n) _) (hb.counted n)
  dying hn := hb.dying (hdying _ hn)

/-- A node that has a name has a handle. -/
theorem handlesOf_pos_of_name (hb : b.Tended dying owed) {name : String} {n : NodeId}
    (hn : Entries.get? name b.desk.nodes = some n) : 0 < b.handlesOf n := by
  have hcount : 0 < (Entries.values b.desk.nodes).count n :=
    List.count_pos_iff.2 ((Entries.mem_values_iff hb.names).2 ⟨name, hn⟩)
  have := hb.counted n
  omega

/-- A node to which a handle is owed has one. -/
theorem handlesOf_pos_of_owed {n : NodeId} (hb : b.Tended dying (n :: owed)) :
    0 < b.handlesOf n := by
  have := hb.counted n
  rw [List.count_cons_self] at this
  omega

/-- A node with a handle is not dying. -/
theorem not_dying (hb : b.Tended dying owed) {n : NodeId} (h : 0 < b.handlesOf n) : ¬dying n := by
  intro hn
  obtain ⟨x, hx, hzero⟩ := hb.dying hn
  rw [handlesOf_eq hx] at h
  omega

end Tended

namespace Tends

theorem refl (b : Bus) : b.Tends b := fun _ _ hb => ⟨hb, Forest.Succeeds.refl _⟩

theorem trans {b b' b'' : Bus} (h : b.Tends b') (h' : b'.Tends b'') : b.Tends b'' := by
  intro dying owed hb
  obtain ⟨hb', hsucc⟩ := h dying owed hb
  obtain ⟨hb'', hsucc'⟩ := h' dying owed hb'
  exact ⟨hb'', hsucc.trans hb.coherent hsucc'⟩

/-- The bus later on, for an operation that started with `b`. -/
theorem after {dying : NodeId → Prop} {owed : List NodeId} {f : Forest} (hf : f.Coherent)
    {c d : Bus} (h : c.Tends d) (hc : c.Tended dying owed ∧ f.Succeeds c.forest) :
    d.Tended dying owed ∧ f.Succeeds d.forest := by
  obtain ⟨hd, hsucc⟩ := h dying owed hc.1
  exact ⟨hd, hc.2.trans hf hsucc⟩

end Tends

/-! ## Changes of one thing -/

theorem Tended.of_same {dying : NodeId → Prop} {owed : List NodeId} {b b' : Bus}
    (hb : b.Tended dying owed) (hforest : b'.forest = b.forest)
    (hnames : b'.desk.nodes = b.desk.nodes) : b'.Tended dying owed := by
  have hnode : ∀ n, b'.node? n = b.node? n := fun n => by rw [node?, node?, hforest]
  exact ⟨hforest ▸ hb.coherent, hnames ▸ hb.names,
    fun n => by rw [hnames, handlesOf, hnode]; exact hb.counted n,
    fun hn => by simpa only [hnode] using hb.dying hn⟩

/-- The same nodes, and the same names of nodes. -/
theorem tends_of_same {b b' : Bus} (hforest : b'.forest = b.forest)
    (hnames : b'.desk.nodes = b.desk.nodes) : b.Tends b' := fun _ _ hb =>
  ⟨hb.of_same hforest hnames, hforest ▸ Forest.Succeeds.refl _⟩

theorem handlesOf_adjustNode (b : Bus) (n m : NodeId) (change : Node → Node) :
    (b.adjustNode n change).handlesOf m =
      if m = n then (b.node? m).elim 0 fun x => (change x).handles else b.handlesOf m := by
  unfold handlesOf
  rw [node?_adjustNode]
  split
  · cases b.node? m <;> rfl
  · rfl

/-- A node changes, but for its place and its handles. -/
theorem tends_adjustNode (b : Bus) (n : NodeId) {change : Node → Node}
    (hplace : Forest.KeepsPlace change) (hhandles : ∀ x, (change x).handles = x.handles) :
    b.Tends (b.adjustNode n change) := by
  intro dying owed hb
  have hsame : ∀ m, (b.adjustNode n change).handlesOf m = b.handlesOf m := by
    intro m
    rw [handlesOf_adjustNode]
    unfold handlesOf
    split
    · cases b.node? m with
      | none => rfl
      | some x => exact hhandles x
    · rfl
  refine ⟨⟨hb.coherent.adjust hplace n, hb.names, fun m => by rw [hsame]; exact hb.counted m, ?_⟩,
    Forest.succeeds_adjust hplace _ n⟩
  intro m hm
  obtain ⟨x, hx, hzero⟩ := hb.dying hm
  rw [node?_adjustNode, hx]
  split
  · exact ⟨_, rfl, (hhandles x).trans hzero⟩
  · exact ⟨x, rfl, hzero⟩

end Bus

/-! ## Taking hold and letting go -/

/-- **A careful host** tends nodes, whatever it is asked to do; a node that it destroys is dying
before, and no longer after. -/
structure Host.Careful (h : Host) : Prop where
  perform : ∀ commands b, Bus.Tends b (h.perform commands b)
  destroyNode : ∀ {dying owed b n}, dying n → Bus.Tended dying owed b →
    (h.destroyNode n b).Tended (fun m => dying m ∧ m ≠ n) owed ∧
      b.forest.Succeeds (h.destroyNode n b).forest
  destroyInterface : ∀ i b, Bus.Tends b (h.destroyInterface i b)

theorem Host.careful_inert : Host.inert.Careful where
  perform _ := Bus.Tends.refl
  destroyNode _ hb := ⟨hb.mono (fun _ => And.left) fun _ => Nat.le_refl _, Forest.Succeeds.refl _⟩
  destroyInterface _ := Bus.Tends.refl

/-- Calling a transport tends nodes. -/
def Host.Careful.calls {h : Host} (hh : h.Careful) : CallLaw h where
  Holds := Bus.Tends
  refl := Bus.Tends.refl
  trans := Bus.Tends.trans
  aside hforest _ hnames _ := Bus.tends_of_same hforest hnames
  perform := hh.perform

namespace Bus

section Handles

variable {dying : NodeId → Prop} {owed : List NodeId} {b : Bus}

/-- Handles of a node that is not dying are counted anew. -/
theorem Tended.recount (hb : b.Tended dying owed) {n : NodeId} (hn : ¬dying n)
    (count : Nat → Nat) {owed' : List NodeId}
    (hcounted : ∀ m, (Entries.values b.desk.nodes).count m + owed'.count m ≤
      (b.adjustNode n fun x => { x with handles := count x.handles }).handlesOf m) :
    (b.adjustNode n fun x => { x with handles := count x.handles }).Tended dying owed' ∧
      b.forest.Succeeds (b.adjustNode n fun x => { x with handles := count x.handles }).forest := by
  have hplace : Forest.KeepsPlace fun x => { x with handles := count x.handles } :=
    ⟨fun _ => rfl, fun _ => rfl, fun _ => rfl⟩
  refine ⟨⟨hb.coherent.adjust hplace n, hb.names, hcounted, fun {m} hm => ?_⟩,
    Forest.succeeds_adjust hplace _ n⟩
  obtain ⟨x, hx, hzero⟩ := hb.dying hm
  have hmn : m ≠ n := fun h => hn (h ▸ hm)
  exact ⟨x, by rw [node?_adjustNode, if_neg hmn, hx], hzero⟩

/-- **Taking a handle**, of a node that has one: another one is owed. -/
theorem Tended.holdNode (hb : b.Tended dying owed) {n : NodeId} (hn : 0 < b.handlesOf n) :
    (b.holdNode n).Tended dying (n :: owed) ∧ b.forest.Succeeds (b.holdNode n).forest := by
  refine hb.recount (hb.not_dying hn) (· + 1) fun m => ?_
  obtain ⟨x, hx⟩ := exists_of_handlesOf hn
  have hcounted := hb.counted m
  by_cases hmn : m = n
  · subst hmn
    rw [handlesOf_eq hx] at hcounted
    rw [List.count_cons_self, handlesOf_adjustNode, if_pos rfl, hx, Option.elim_some]
    exact Nat.succ_le_succ hcounted
  · rw [List.count_cons_of_ne (Ne.symm hmn), handlesOf_adjustNode, if_neg hmn]
    exact hcounted

/-- A handle less, of a node to which one is owed. -/
theorem Tended.slackened {n : NodeId} (hb : b.Tended dying (n :: owed)) :
    (b.adjustNode n fun x => { x with handles := x.handles - 1 }).Tended dying owed ∧
      b.forest.Succeeds (b.adjustNode n fun x => { x with handles := x.handles - 1 }).forest := by
  have hpos := hb.handlesOf_pos_of_owed
  refine hb.recount (hb.not_dying hpos) (· - 1) fun m => ?_
  obtain ⟨x, hx⟩ := exists_of_handlesOf hpos
  have hcounted := hb.counted m
  by_cases hmn : m = n
  · subst hmn
    rw [List.count_cons_self, handlesOf_eq hx] at hcounted
    rw [handlesOf_adjustNode, if_pos rfl, hx, Option.elim_some]
    exact Nat.le_sub_one_of_lt hcounted
  · rw [List.count_cons_of_ne (Ne.symm hmn)] at hcounted
    rw [handlesOf_adjustNode, if_neg hmn]
    exact hcounted

variable {h : Host} (hh : h.Careful)

include hh

/-- **Letting a handle go** that was owed. Whoever had the last one is dying from then on. -/
theorem Tended.releaseNode {n : NodeId} (hb : b.Tended dying (n :: owed)) :
    (b.releaseNode h n).Tended dying owed ∧ b.forest.Succeeds (b.releaseNode h n).forest := by
  obtain ⟨hless, hsucc⟩ := hb.slackened
  have hpos := hb.handlesOf_pos_of_owed
  obtain ⟨x, hx⟩ := exists_of_handlesOf hpos
  unfold Bus.releaseNode
  dsimp only
  split
  · exact ⟨hless, hsucc⟩
  · next hdead =>
      rw [isLiveNode_iff_handlesOf] at hdead
      generalize hc : (b.adjustNode n fun x => { x with handles := x.handles - 1 }) = c
        at hless hsucc hdead ⊢
      have hn : c.node? n = some { x with handles := x.handles - 1 } := by
        rw [← hc, node?_adjustNode, if_pos rfl, hx]
        rfl
      rw [handlesOf_eq hn] at hdead
      have hdying : c.Tended (fun m => m = n ∨ dying m) owed := by
        refine ⟨hless.coherent, hless.names, hless.counted, ?_⟩
        rintro m (rfl | hm)
        · exact ⟨_, hn, Nat.eq_zero_of_not_pos hdead⟩
        · exact hless.dying hm
      obtain ⟨hend, hsucc'⟩ := hh.destroyNode (Or.inl rfl) hdying
      refine ⟨hend.mono (fun m hm => ⟨Or.inr hm, ?_⟩) fun _ => Nat.le_refl _,
        hsucc.trans hb.coherent hsucc'⟩
      rintro rfl
      exact hb.not_dying hpos hm

/-- **A node gets a name**, for a handle that was owed; a handle was owed to the one that had it. -/
theorem Tended.nameNode {n : NodeId} (hb : b.Tended dying (n :: owed)) (name : String) :
    (b.nameNode h name n).Tended dying owed ∧
      b.forest.Succeeds (b.nameNode h name n).forest := by
  have hcount : ∀ m, (Entries.values (Entries.put name n b.desk.nodes)).count m +
      ((Entries.get? name b.desk.nodes).toList ++ owed).count m ≤ b.handlesOf m := by
    intro m
    have hperm := (Entries.perm_values_put hb.names name n).count_eq m
    have hcounted := hb.counted m
    rw [List.count_append, List.count_cons] at hperm
    rw [List.count_cons] at hcounted
    rw [List.count_append]
    omega
  have hput : Tended dying ((Entries.get? name b.desk.nodes).toList ++ owed)
      { b with desk := { b.desk with nodes := Entries.put name n b.desk.nodes } } :=
    ⟨hb.coherent, Entries.sorted_put hb.names name n, hcount, hb.dying⟩
  unfold Bus.nameNode
  dsimp only
  split
  · next hnone =>
      rw [hnone] at hput
      exact ⟨hput, Forest.Succeeds.refl _⟩
  · next o hsome =>
      rw [hsome] at hput
      exact hput.releaseNode hh

/-- **A node loses a name**, and with it a handle. -/
theorem Tended.unname {name : String} {n : NodeId} (hb : b.Tended dying owed)
    (hn : Entries.get? name b.desk.nodes = some n) :
    Tended dying owed (Bus.releaseNode h n
      { b with desk := { b.desk with nodes := Entries.drop name b.desk.nodes } }) ∧
      b.forest.Succeeds (Bus.releaseNode h n
        { b with desk := { b.desk with nodes := Entries.drop name b.desk.nodes } }).forest := by
  have hdropped : Tended dying (n :: owed)
      { b with desk := { b.desk with nodes := Entries.drop name b.desk.nodes } } := by
    refine ⟨hb.coherent, Entries.sorted_drop hb.names name, fun m => ?_, hb.dying⟩
    have hperm := (Entries.perm_values_drop hb.names hn).count_eq m
    have hcounted := hb.counted m
    rw [List.count_cons] at hperm ⊢
    change _ ≤ b.handlesOf m
    dsimp only
    omega
  exact hdropped.releaseNode hh

end Handles

/-! ## Planting -/

/-- **A node is planted** below one that is there; its handle is owed. -/
theorem Tended.grow {dying : NodeId → Prop} {owed : List NodeId} {b : Bus}
    (hb : b.Tended dying owed) (name : String) {parent : Option NodeId}
    (hp : ∀ p, parent = some p → 0 < b.handlesOf p) (servers : List TransportId) :
    Tended dying ((b.forest.grow name parent servers).1 :: owed)
        { b with forest := (b.forest.grow name parent servers).2 } ∧
      b.forest.Succeeds (b.forest.grow name parent servers).2 := by
  have hp' : ∀ p, parent = some p → (b.forest.get? p).isSome := by
    intro p hpar
    obtain ⟨x, hx⟩ := exists_of_handlesOf (hp p hpar)
    exact Option.isSome_of_eq_some hx
  have hget := Forest.get?_grow_of hb.coherent.fresh name hp' servers
  refine ⟨⟨hb.coherent.grow name hp' servers, hb.names, fun m => ?_, fun {m} hm => ?_⟩,
    Forest.succeeds_grow hb.coherent name hp' servers⟩
  · have hcounted := hb.counted m
    change _ + (b.forest.next :: owed).count m ≤ ((b.forest.grow name parent servers).2.get? m).elim
      0 Node.handles
    rw [hget]
    by_cases hnew : m = b.forest.next
    · -- nobody has a handle of a node that is not there yet
      have hnone : b.handlesOf m = 0 := by
        refine Nat.eq_zero_of_not_pos fun hpos => ?_
        obtain ⟨x, hx⟩ := exists_of_handlesOf hpos
        exact Nat.ne_of_lt (hb.coherent.fresh hx) hnew
      subst hnew
      rw [if_pos rfl, List.count_cons_self]
      change _ ≤ 1
      dsimp only
      omega
    · rw [if_neg hnew, List.count_cons_of_ne (Ne.symm hnew)]
      refine Nat.le_trans hcounted (Nat.le_of_eq ?_)
      rw [handlesOf, node?]
      cases b.forest.get? m with
      | none => rfl
      | some x =>
          by_cases hpar : parent = some m <;> simp [hpar]
  · obtain ⟨x, hx, hzero⟩ := hb.dying hm
    have hold : m ≠ b.forest.next := Nat.ne_of_lt (hb.coherent.fresh hx)
    have hx : b.forest.get? m = some x := hx
    refine ⟨_, by rw [node?, hget, if_neg hold, hx]; rfl, ?_⟩
    dsimp only
    split <;> exact hzero

/-! ## Attaching and detaching -/

/-- The names of interfaces at a node change. -/
theorem tends_table (b : Bus) (n : NodeId) (table : Node → Entries String InterfaceId) :
    b.Tends (b.adjustNode n fun x => { x with interfaces := table x }) :=
  tends_adjustNode b n ⟨fun _ => rfl, fun _ => rfl, fun _ => rfl⟩ fun _ => rfl

theorem tends_setOwner (b : Bus) (i : InterfaceId) (owner : Option NodeId) :
    b.Tends (b.setOwner i owner) :=
  tends_of_same rfl rfl

end Bus

/-- Attaching and detaching tend nodes. -/
def Host.Careful.tables {h : Host} (hh : h.Careful) : TableLaw h where
  toCallLaw := hh.calls
  table := Bus.tends_table
  owner := Bus.tends_setOwner

theorem Bus.tends_destroyInterface {h : Host} (hh : h.Careful) (b : Bus) (i : InterfaceId) :
    b.Tends (b.destroyInterface h i) :=
  Bus.Tends.trans (hh.tables.release b i) (Bus.tends_of_same rfl rfl)

/-- **Commands tend nodes.** -/
def Host.Careful.commands {h : Host} (hh : h.Careful) : CommandLaw h where
  toCallLaw := hh.calls
  node b n _ hminor := Bus.tends_adjustNode b n
    ⟨fun x => by rw [hminor x], fun x => by rw [hminor x], fun x => by rw [hminor x]⟩
    fun x => by rw [hminor x]
  count _ _ _ := Bus.tends_of_same rfl rfl
  edit _ _ _ := Bus.tends_of_same rfl rfl
  newValue _ := Bus.tends_of_same rfl rfl
  moveOut _ := Bus.tends_of_same rfl rfl
  destroyInterface := hh.destroyInterface
  attach {b i _} _ _ n := by
    have hheld : b.Tends (b.adjustInterface i fun x => { x with isLoose := false }) :=
      Bus.tends_of_same rfl rfl
    exact hheld.trans (hh.tables.attach _ i n)
  detach := hh.tables.detach
  held hn _ hwork := by
    intro dying owed hb
    obtain ⟨hheld, hsucc⟩ := hb.holdNode (hb.handlesOf_pos_of_name hn)
    obtain ⟨hc, hsucc'⟩ := hwork dying _ hheld
    obtain ⟨hend, hsucc''⟩ := hc.releaseNode hh
    exact ⟨hend, (hsucc.trans hb.coherent hsucc').trans hb.coherent hsucc''⟩
  plant b id name parent servers hp := by
    intro dying owed hb
    have hpos : ∀ p, parent = some p → 0 < b.handlesOf p := by
      intro p hpar
      obtain ⟨k, hk⟩ := hp p hpar
      exact hb.handlesOf_pos_of_name hk
    obtain ⟨hgrown, hsucc⟩ := hb.grow name hpos servers
    obtain ⟨hend, hsucc'⟩ := hgrown.nameNode hh id
    exact ⟨hend, hsucc.trans hb.coherent hsucc'⟩
  share hn id := by
    intro dying owed hb
    obtain ⟨hheld, hsucc⟩ := hb.holdNode (hb.handlesOf_pos_of_name hn)
    obtain ⟨hend, hsucc'⟩ := hheld.nameNode hh id
    exact ⟨hend, hsucc.trans hb.coherent hsucc'⟩
  unname hn := fun _ _ hb => hb.unname hh hn

/-! ## Destroying nodes -/

namespace Bus

/-- **A node is out of the forest**, and its links are rewritten as they were noted in `f`. -/
theorem Tended.uproot {dying : NodeId → Prop} {owed : List NodeId} {f : Forest} {b : Bus}
    (hb : b.Tended dying owed) (hf : f.Coherent) (hsucc : f.Succeeds b.forest) {n : NodeId}
    {x : Node} (hx : f.get? n = some x) (hn : dying n) :
    Tended (fun m => dying m ∧ m ≠ n) owed
        { b with forest := b.forest.uproot n x.name x.parent x.children } ∧
      f.Succeeds (b.forest.uproot n x.name x.parent x.children) := by
  obtain ⟨y, hy, hzero⟩ := hb.dying hn
  have hthere : (b.forest.get? n).isSome := Option.isSome_of_eq_some hy
  have hget := Forest.get?_uproot_noted hf hb.coherent hx
  refine ⟨⟨Forest.Coherent.uproot hf hb.coherent hx hsucc hthere, hb.names, fun m => ?_,
    fun {m} hm => ?_⟩, Forest.succeeds_uproot hf hb.coherent hx hsucc hthere⟩
  · refine Nat.le_trans (hb.counted m) (Nat.le_of_eq ?_)
    change _ = Option.elim (Forest.get? _ m) 0 Node.handles
    rw [hget]
    split
    · next hmn =>
        subst hmn
        rw [handlesOf_eq hy, hzero]
        rfl
    · rw [handlesOf, node?]
      cases b.forest.get? m <;> rfl
  · obtain ⟨z, hz, hzero⟩ := hb.dying hm.1
    have hz : b.forest.get? m = some z := hz
    exact ⟨Forest.movedUp n x m z, by rw [node?, hget, if_neg hm.2, hz]; rfl, hzero⟩

/-- The nodes to which a handle is owed while they are moved. -/
def owedFor (moved : List Relocation) : List NodeId := (moved.filter (·.isHeld)).map (·.node)

theorem forest_holdServers (b : Bus) (ts : List TransportId) :
    (b.holdServers ts).forest = b.forest := by
  induction ts generalizing b with
  | nil => rfl
  | cons t ts ih => exact ih (b.holdServer t)

theorem forest_pin (b : Bus) (m : Relocation) :
    (b.pin m).forest = (if m.isHeld then b.holdNode m.node else b).forest := by
  rw [pin, forest_holdInterfaces, forest_holdServers]

theorem handlesOf_pin_le (b : Bus) (m : Relocation) (n : NodeId) :
    b.handlesOf n ≤ (b.pin m).handlesOf n := by
  have hpin : (b.pin m).handlesOf n =
      (if m.isHeld then b.holdNode m.node else b).handlesOf n := by
    rw [handlesOf, node?, forest_pin, handlesOf, node?]
  rw [hpin]
  split
  · rw [holdNode, handlesOf_adjustNode]
    split
    · rw [handlesOf]
      cases b.node? n with
      | none => exact Nat.le_refl _
      | some x => exact Nat.le_succ _
    · exact Nat.le_refl _
  · exact Nat.le_refl _

section Destroy

variable {dying : NodeId → Prop} {owed : List NodeId} {h : Host} (hh : h.Careful)

include hh

/-- What is moved is held, one after the other. -/
theorem Tended.pinAll {moved : List Relocation} {b : Bus} (hb : b.Tended dying owed)
    (hlive : ∀ m ∈ moved, m.isHeld = true → 0 < b.handlesOf m.node) :
    (moved.foldl pin b).Tended dying (owedFor moved ++ owed) ∧
      b.forest.Succeeds (moved.foldl pin b).forest := by
  induction moved generalizing b owed with
  | nil => exact ⟨hb, Forest.Succeeds.refl _⟩
  | cons m ms ih =>
      have hfirst : (b.pin m).Tended dying (owedFor [m] ++ owed) ∧
          b.forest.Succeeds (b.pin m).forest := by
        unfold pin
        refine Tends.after hb.coherent (hh.commands.holdAll _ m.servers m.interfaces) ?_
        split
        · next hheld =>
            simpa [owedFor, hheld] using hb.holdNode (hlive m List.mem_cons_self hheld)
        · next hheld => simpa [owedFor, hheld] using ⟨hb, Forest.Succeeds.refl b.forest⟩
      obtain ⟨hall, hsucc⟩ := ih hfirst.1 fun m' hm' hheld =>
        Nat.lt_of_lt_of_le (hlive m' (List.mem_cons_of_mem m hm') hheld) (handlesOf_pin_le b m _)
      refine ⟨hall.mono (fun _ => id) fun n => Nat.le_of_eq ?_, hfirst.2.trans hb.coherent hsucc⟩
      have hsplit : owedFor (m :: ms) = owedFor [m] ++ owedFor ms := by
        simp only [owedFor, ← List.map_append, ← List.filter_append, List.singleton_append]
      rw [hsplit]
      simp only [List.count_append]
      omega

/-- What was moved is let go, one after the other. -/
theorem Tended.unpinAll {moved : List Relocation} {b : Bus}
    (hb : b.Tended dying (owedFor moved ++ owed)) :
    (moved.foldl (fun b m => b.unpin h m) b).Tended dying owed ∧
      b.forest.Succeeds (moved.foldl (fun b m => b.unpin h m) b).forest := by
  induction moved generalizing b with
  | nil => exact ⟨hb, Forest.Succeeds.refl _⟩
  | cons m ms ih =>
      have hfirst : (b.unpin h m).Tended dying (owedFor ms ++ owed) ∧
          b.forest.Succeeds (b.unpin h m).forest := by
        unfold unpin
        refine Tends.after hb.coherent (hh.commands.releaseAll _ m.servers m.interfaces) ?_
        split
        · next hheld =>
            have howed : owedFor (m :: ms) = m.node :: owedFor ms := by simp [owedFor, hheld]
            rw [howed] at hb
            exact hb.releaseNode hh
        · next hheld =>
            have howed : owedFor (m :: ms) = owedFor ms := by simp [owedFor, hheld]
            rw [howed] at hb
            exact ⟨hb, Forest.Succeeds.refl _⟩
      obtain ⟨hall, hsucc⟩ := ih hfirst.1
      exact ⟨hall, hfirst.2.trans hb.coherent hsucc⟩

/-- **Destroying a node** that is dying. The links that are rewritten in the end were noted before the
first call. -/
theorem Tended.destroyNode {n : NodeId} {b : Bus} (hn : dying n) (hb : b.Tended dying owed) :
    (b.destroyNode h n).Tended (fun m => dying m ∧ m ≠ n) owed ∧
      b.forest.Succeeds (b.destroyNode h n).forest := by
  obtain ⟨x, hx, -⟩ := hb.dying hn
  have hf := hb.coherent
  unfold Bus.destroyNode
  simp only [hx]
  -- the node leaves its transports, and its values are on their own
  have hleft := hh.calls.leaveAll b n (Entries.keys x.interfaces) x.managing.isSome
    (b.transportsOf x)
  generalize ((b.transportsOf x).foldl (fun b t => b.leave h n (Entries.keys x.interfaces)
    x.managing.isSome t) (b.holdServers (b.transportsOf x))) = b₁ at hleft ⊢
  generalize (Entries.values x.interfaces).filter b₁.isLiveInterface = kept
  have hdisowned : b.Tends _ := (hleft.trans (hh.commands.holdInterfaces b₁ kept)).trans
    (hh.calls.foldl (fun c i => tends_setOwner c i none) kept _)
  generalize kept.foldl (fun b i => b.setOwner i none) (b₁.holdInterfaces kept) = b₂
    at hdisowned ⊢
  -- what is moved is held until all is done
  generalize hmoved : (if x.parent.isSome = true then
    (b₂.forest.descendants n).filterMap b₂.snapshot else []) = moved
  have hlive : ∀ m ∈ moved, m.isHeld = true → 0 < b₂.handlesOf m.node := by
    intro m hm hheld
    rw [← hmoved] at hm
    split at hm
    · obtain ⟨d, -, hd⟩ := List.mem_filterMap.1 hm
      obtain ⟨y, -, rfl⟩ := Option.map_eq_some_iff.1 hd
      exact isLiveNode_iff_handlesOf.1 hheld
    · cases hm
  obtain ⟨hb₂, hsucc₂⟩ := hdisowned dying owed hb
  obtain ⟨hb₃, hsucc₃⟩ := hb₂.pinAll hh hlive
  have hwithdrawn : ∀ c : Bus, c.Tends (moved.foldl (fun b m => b.withdraw h m) c) :=
    hh.calls.foldl hh.calls.withdraw moved
  obtain ⟨hb₄, hsucc₄⟩ := (hwithdrawn _).after hf ⟨hb₃, hsucc₂.trans hf hsucc₃⟩
  generalize moved.foldl (fun b m => b.withdraw h m) (moved.foldl pin b₂) = b₄ at hb₄ hsucc₄ ⊢
  obtain ⟨hb₅, hsucc₅⟩ := hb₄.uproot hf hsucc₄ hx hn
  have hrestored : ∀ c : Bus, c.Tends (moved.foldl (fun b m => b.restore h m) c) :=
    hh.calls.foldl hh.calls.restore moved
  obtain ⟨hb₆, hsucc₆⟩ := (hrestored _).after hf ⟨hb₅, hsucc₅⟩
  obtain ⟨hb₇, hsucc₇⟩ := hb₆.unpinAll hh
  -- and everything is let go
  have hreleased : ∀ c : Bus,
      c.Tends ((c.releaseInterfaces h kept).releaseServers (b.transportsOf x)) := fun c =>
    Tends.trans (hh.commands.releaseInterfaces c kept) (hh.calls.releaseServers _ _)
  exact (hreleased _).after hf ⟨hb₇, hsucc₆.trans hf hsucc₇⟩

end Destroy

theorem tended_empty : Tended (fun _ => False) [] {} where
  coherent := Forest.wellFormed_empty.coherent
  names := Entries.sorted_nil
  counted _ := Nat.le_refl _
  dying h := h.elim

end Bus

/-- **The host of every level is careful**: it carries commands and destructions out with the host of
the level below. -/
theorem Host.careful_ofLevels (levels : Nat) : (Host.ofLevels levels).Careful := by
  induction levels with
  | zero => exact Host.careful_inert
  | succ levels ih =>
      exact ⟨fun commands b => ih.commands.executeLogged b commands,
        fun hn hb => hb.destroyNode ih hn, fun i b => Bus.tends_destroyInterface ih b i⟩

/-- **After a session nodes are tended**; none is dying, and nothing is owed. -/
theorem Session.tended_busAfter (levels : Nat) (commands : List Command) :
    (busAfter levels commands).Tended (fun _ => False) [] :=
  ((Host.careful_ofLevels levels).commands.runFrom {} commands _ _ Bus.tended_empty).1

end ObjectBus
