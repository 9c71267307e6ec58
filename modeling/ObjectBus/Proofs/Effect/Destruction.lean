import ObjectBus.Proofs.Bus.Destruction
import ObjectBus.Proofs.Effect.Nodes

/-!
# The effect of destroying a node

The node leaves its transports with every name that it has. The nodes that it moves leave theirs
with the names that lead to a live value, and come back under these names at their new addresses.
What nobody has moved stays as it was; but a transport knows addresses and names only, so what is
taken away is taken away from every node at the address (`Bus.Vacates`).
-/

set_option autoImplicit false

namespace ObjectBus.Bus

/-! ## What a relocation stands for -/

/-- **A relocation says what a node has.** -/
def Relocation.Mirrors (m : Relocation) (b : Bus) : Prop :=
  ∃ y, b.node? m.node = some y ∧ m.servers = b.transportsOf y ∧
    m.interfaces = b.instancesOf y ∧ m.managing = y.managing

theorem Relocation.Mirrors.holds_iff {m : Relocation} {b : Bus} (hm : m.Mirrors b) (hb : b.Sound)
    {t : TransportId} {a : Address} {k : String} : m.Holds b t a k ↔ b.Offers m.node t a k := by
  obtain ⟨y, hy, hservers, hinterfaces, -⟩ := hm
  rw [Relocation.Holds, offers_iff hb hy, at_iff hy, hservers, hinterfaces, and_assoc]

theorem Relocation.Mirrors.marks_iff {m : Relocation} {b : Bus} (hm : m.Mirrors b)
    {t : TransportId} {a : Address} :
    m.Marks b t a ↔ ∃ o, b.Presents m.node t a o ∧ m.managing = some o := by
  obtain ⟨y, hy, hservers, -, hmanaging⟩ := hm
  simp only [Relocation.Marks, presents_iff hy, at_iff hy, hservers, hmanaging,
    Option.isSome_iff_exists]
  constructor
  · rintro ⟨⟨o, ho⟩, ht, ha⟩
    exact ⟨o, ⟨⟨ht, ha⟩, ho⟩, ho⟩
  · rintro ⟨o, ⟨⟨ht, ha⟩, ho⟩, -⟩
    exact ⟨⟨o, ho⟩, ht, ha⟩

theorem mirrors_snapshot {b : Bus} {n : NodeId} {m : Relocation} (hm : b.snapshot n = some m) :
    m.Mirrors b := by
  unfold snapshot at hm
  obtain ⟨y, hy, rfl⟩ := Option.map_eq_some_iff.1 hm
  exact ⟨y, hy, rfl, rfl, rfl⟩

theorem exists_snapshot {b : Bus} {n : NodeId} {y : Node} (hy : b.node? n = some y) :
    ∃ m, b.snapshot n = some m ∧ m.node = n := by
  have hm : b.snapshot n = some ⟨n, b.isLiveNode n, b.transportsOf y, b.instancesOf y,
      y.managing⟩ := by
    rw [snapshot, hy]
    rfl
  exact ⟨_, hm, rfl⟩

/-! ## Letting the last handle go -/

/-- The bus with one handle to a node less. -/
def unheld (b : Bus) (n : NodeId) : Bus :=
  b.adjustNode n fun x => { x with handles := x.handles - 1 }

section Unheld

variable {b : Bus} (hb : b.Sound) {n : NodeId} {x : Node} (hn : b.node? n = some x)

theorem node?_unheld_of_ne {m : NodeId} (hm : m ≠ n) : (b.unheld n).node? m = b.node? m :=
  node?_adjustNode_of_ne b hm _

theorem addressOn_unheld (n m : NodeId) (t : TransportId) :
    (b.unheld n).addressOn m t = b.addressOn m t :=
  addressOn_adjustNode b n (shrinks_handles b fun c => c - 1).place m t

theorem Sound.unheld (hb : b.Sound) (n : NodeId) : (b.unheld n).Sound :=
  hb.adjustNode n (shrinks_handles b fun c => c - 1)

include hn

theorem node?_unheld : (b.unheld n).node? n = some { x with handles := x.handles - 1 } :=
  node?_adjustNode_self hn _

include hb

theorem descendants_unheld (hpos : 0 < x.handles) :
    (b.unheld n).forest.descendants n = b.forest.descendants n := by
  have hback : (b.unheld n).gripped (Grip.nothing.onNodes [n]) = b := by
    rw [← holdNode_gripped (hb.unheld n).orderly, gripped_nothing, holdNode, Bus.unheld,
      adjustNode_adjustNode]
    refine adjustNode_eq_self fun y hy => ?_
    obtain rfl : x = y := Option.some.inj (hn.symm.trans hy)
    simp only [Function.comp_apply, Nat.sub_add_cancel hpos]
  have heq := Forest.descendants_gripped (b.unheld n).forest (Grip.nothing.onNodes [n]) n
  change ((b.unheld n).gripped (Grip.nothing.onNodes [n])).forest.descendants n = _ at heq
  rw [hback] at heq
  exact heq.symm

theorem below_unheld (hpos : 0 < x.handles) {d : NodeId} :
    (b.unheld n).forest.Below n d ↔ b.forest.Below n d := by
  rw [← Forest.mem_descendants_iff hb.forest,
    ← Forest.mem_descendants_iff (hb.unheld n).forest,
    descendants_unheld hb hn hpos]

end Unheld

/-! ## What is moved -/

section Moving

variable {b : Bus} (hb : b.Sound) {n : NodeId} {x : Node} (hn : b.node? n = some x)
  (hpos : 0 < x.handles)

theorem Moves.ne (hb : b.Sound) {d : NodeId} (hd : b.Moves n d) : d ≠ n :=
  fun h => Nat.lt_irrefl n (h ▸ hd.1.lt hb.forest)

/-- The nodes that are moved, as a list. -/
theorem mem_movers_iff (hb : b.Sound) {n d : NodeId} : d ∈ b.movers n ↔ b.Moves n d := by
  unfold movers Moves
  cases hn : b.node? n with
  | none => simp
  | some x =>
      simp only [Option.some.injEq, exists_eq_left']
      split
      · next hp => rw [Forest.mem_descendants_iff hb.forest, and_iff_left hp]
      · next hp => simp [hp]

include hb hn hpos

/-- The relocations of a destroyed node are those of the nodes it moves. -/
theorem mem_moving_unheld {m : Relocation} :
    m ∈ (b.unheld n).moving n { x with handles := x.handles - 1 } ↔
      b.Moves n m.node ∧ (b.unheld n).snapshot m.node = some m := by
  rw [mem_moving (hb.unheld n).forest, below_unheld hb hn hpos, Moves, hn]
  constructor
  · rintro ⟨hp, hd, hm⟩
    exact ⟨⟨hd, x, rfl, hp⟩, hm⟩
  · rintro ⟨⟨hd, y, hy, hp⟩, hm⟩
    cases hy
    exact ⟨hp, hd, hm⟩

theorem mirrors_of_mem_moving {m : Relocation}
    (hm : m ∈ (b.unheld n).moving n { x with handles := x.handles - 1 }) : m.Mirrors b := by
  obtain ⟨hmoves, hsnapshot⟩ := (mem_moving_unheld hb hn hpos).1 hm
  obtain ⟨y, hy, hservers, hinterfaces, hmanaging⟩ := mirrors_snapshot hsnapshot
  rw [node?_unheld_of_ne (hmoves.ne hb)] at hy
  exact ⟨y, hy, hservers, hinterfaces, hmanaging⟩

theorem exists_mem_moving {d : NodeId} (hd : b.Moves n d) :
    ∃ m ∈ (b.unheld n).moving n { x with handles := x.handles - 1 }, m.node = d := by
  obtain ⟨y, hy⟩ := hd.1.exists_node
  have hy' : (b.unheld n).node? d = some y := (node?_unheld_of_ne (hd.ne hb)).trans hy
  obtain ⟨m, hm, rfl⟩ := exists_snapshot hy'
  exact ⟨m, (mem_moving_unheld hb hn hpos).2 ⟨hd, hm⟩, rfl⟩

/-- They come in the order of the moved nodes. -/
theorem map_node_moving :
    ((b.unheld n).moving n { x with handles := x.handles - 1 }).map (·.node) = b.movers n := by
  rw [moving, movers, hn]
  simp only
  split
  · rw [descendants_unheld hb hn hpos]
    have hall : ∀ d ∈ b.forest.descendants n, ∃ m, (b.unheld n).snapshot d = some m ∧
        m.node = d := by
      intro d hd
      rw [Forest.mem_descendants_iff hb.forest] at hd
      obtain ⟨y, hy⟩ := hd.exists_node
      have hdn : d ≠ n := fun h => Nat.lt_irrefl n (h ▸ hd.lt hb.forest)
      have hy' : (b.unheld n).node? d = some y := (node?_unheld_of_ne hdn).trans hy
      exact exists_snapshot hy'
    generalize b.forest.descendants n = ds at hall
    induction ds with
    | nil => rfl
    | cons d ds ih =>
        obtain ⟨m, hm, hd⟩ := hall d List.mem_cons_self
        rw [List.filterMap_cons, hm]
        simp only [List.map_cons, hd]
        rw [ih fun d' hd' => hall d' (List.mem_cons_of_mem d hd')]
  · rfl

end Moving

/-! ## Leaving -/

/-- The values of a list are on their own. -/
def disowned (b : Bus) (is : List InterfaceId) : Bus :=
  is.foldl (fun b i => b.setOwner i none) b

theorem Called.disowned {b b' : Bus} (hc : b.Called b') (hb : b.Orderly)
    (is : List InterfaceId) : (b.disowned is).Called (b'.disowned is) := by
  unfold Bus.disowned
  induction is generalizing b b' with
  | nil => exact hc
  | cons i is ih =>
      have hstep : (b.setOwner i none).Called (b'.setOwner i none) :=
        ⟨hc.forest,
          congrArg (Entries.adjust i fun v : Instance => { v with owner := none }) hc.interfaces,
          hc.next, hc.alike, fun _ => (hc.orderly hb).setOwner i none⟩
      exact ih hstep (hb.setOwner i none)

theorem loopback?_disowned (is : List InterfaceId) (b : Bus) (t : TransportId) :
    (b.disowned is).loopback? t = b.loopback? t :=
  loopback?_congr (transports_foldl_setOwner is b) t

theorem disowned_uprooted (is : List InterfaceId) (b : Bus) (n : NodeId) (x : Node) :
    (b.disowned is).uprooted n x = (b.uprooted n x).disowned is := by
  unfold Bus.disowned
  induction is generalizing b with
  | nil => rfl
  | cons i is ih => rw [List.foldl_cons, ih, List.foldl_cons]; rfl

section Leaving

variable {b : Bus} (hb : b.Sound) (h : Host) {n : NodeId} {x : Node} (hn : b.node? n = some x)
  (hpos : 0 < x.handles)

/-- The bus after a destroyed node and the nodes it moves have left their addresses. -/
def away (b : Bus) (h : Host) (n : NodeId) (x : Node) : Bus :=
  ((b.unheld n).moving n { x with handles := x.handles - 1 }).foldl (fun b m => b.withdraw h m)
    (((b.transportsOf x).foldl
      (fun b t => b.leave h n (Entries.keys x.interfaces) x.managing.isSome t)
      (b.unheld n)).disowned (b.instancesOf x))

include hb hn hpos

/-- What is vacated: the names of the node itself, and those of the relocations. -/
theorem vacates_iff {t : TransportId} {a : Address} {k : String} :
    b.Vacates n t a k ↔
      (t ∈ b.transportsOf x ∧ b.addressOn n t = some a ∧ k ∈ Entries.keys x.interfaces) ∨
        ∃ m ∈ (b.unheld n).moving n { x with handles := x.handles - 1 }, m.Holds b t a k := by
  unfold Vacates
  rw [names_iff hn, at_iff hn, and_assoc]
  refine or_congr_right ⟨?_, ?_⟩
  · rintro ⟨d, hd, hoffer⟩
    obtain ⟨m, hm, rfl⟩ := exists_mem_moving hb hn hpos hd
    exact ⟨m, hm, ((mirrors_of_mem_moving hb hn hpos hm).holds_iff hb).2 hoffer⟩
  · rintro ⟨m, hm, hholds⟩
    exact ⟨m.node, ((mem_moving_unheld hb hn hpos).1 hm).1,
      ((mirrors_of_mem_moving hb hn hpos hm).holds_iff hb).1 hholds⟩

/-- What is cleared: the address of the node itself, and those of the relocations. -/
theorem clears_iff {t : TransportId} {a : Address} :
    b.Clears n t a ↔
      (x.managing.isSome = true ∧ t ∈ b.transportsOf x ∧ b.addressOn n t = some a) ∨
        ∃ m ∈ (b.unheld n).moving n { x with handles := x.handles - 1 }, m.Marks b t a := by
  constructor
  · rintro ⟨d, o, rfl | hd, hpresent⟩
    · rw [presents_iff hn, at_iff hn] at hpresent
      exact Or.inl ⟨by rw [hpresent.2]; rfl, hpresent.1⟩
    · obtain ⟨m, hm, rfl⟩ := exists_mem_moving hb hn hpos hd
      have hmirror := mirrors_of_mem_moving hb hn hpos hm
      obtain ⟨y, hy, -, -, hmanaging⟩ := id hmirror
      have hsome : m.managing = some o := hmanaging.trans ((presents_iff hy).1 hpresent).2
      exact Or.inr ⟨m, hm, hmirror.marks_iff.2 ⟨o, hpresent, hsome⟩⟩
  · rintro (⟨hm, ht, ha⟩ | ⟨m, hm, hmark⟩)
    · obtain ⟨o, ho⟩ := Option.isSome_iff_exists.1 hm
      exact ⟨n, o, Or.inl rfl, (presents_iff hn).2 ⟨(at_iff hn).2 ⟨ht, ha⟩, ho⟩⟩
    · obtain ⟨o, ho, -⟩ := (mirrors_of_mem_moving hb hn hpos hm).marks_iff.1 hmark
      exact ⟨m.node, o, Or.inr ((mem_moving_unheld hb hn hpos).1 hm).1, ho⟩

/-- **Leaving** takes away what a destroyed node vacates and clears, and nothing else. -/
theorem away_spec :
    ((b.unheld n).disowned (b.instancesOf x)).Called (b.away h n x) ∧
      (∀ t a k o, (b.away h n x).Registered t a k o ↔
        b.Registered t a k o ∧ ¬b.Vacates n t a k) ∧
      ∀ t a o, (b.away h n x).managed? t a = some o ↔
        b.managed? t a = some o ∧ ¬b.Clears n t a := by
  have hb₀ := hb.unheld n
  have hvacates := fun t a k => vacates_iff hb hn hpos (t := t) (a := a) (k := k)
  have hclears := fun t a => clears_iff hb hn hpos (t := t) (a := a)
  unfold away
  generalize (b.unheld n).moving n { x with handles := x.handles - 1 } = ms at hvacates hclears
  -- first the node itself leaves
  have hleave := withdraws_leave hb₀.orderly h n (Entries.keys x.interfaces) x.managing.isSome
    (b.transportsOf x)
  generalize (b.transportsOf x).foldl
    (fun b t => b.leave h n (Entries.keys x.interfaces) x.managing.isSome t) (b.unheld n) = left
    at hleave
  -- then its values are let go, which changes no name and no address
  have hfree := hleave.called.disowned hb₀.orderly (b.instancesOf x)
  have hloopback := loopback?_disowned (b.instancesOf x) left
  have hname : ∀ i, (left.disowned (b.instancesOf x)).nameOf i = b.nameOf i := fun i =>
    (nameOf_foldl_setOwner (b.instancesOf x) left i).trans (hleave.called.nameOf i)
  have haddress : ∀ m t, (left.disowned (b.instancesOf x)).addressOn m t = b.addressOn m t := by
    intro m t
    refine (addressOn_congr (b := left) ?_ ?_).trans
      ((hleave.called.addressOn m t).trans (addressOn_unheld n m t))
    · rw [Bus.disowned, forest_foldl_setOwner]
    · rw [rootOf, rootOf, transport?, transport?, Bus.disowned, transports_foldl_setOwner]
  have horderly : (left.disowned (b.instancesOf x)).Orderly :=
    orderly_foldl_setOwner (b.instancesOf x) (hleave.called.orderly hb₀.orderly)
  -- and then the moved nodes leave
  have hwithdraw := withdraws_withdrawAll horderly h ms
  refine ⟨hfree.trans hwithdraw.called, fun t a k o => ?_, fun t a o => ?_⟩
  · refine (hwithdraw.registered t a k o).trans ?_
    rw [registered_congr hloopback, hleave.registered, hvacates, not_or, and_assoc]
    simp only [Relocation.Holds, haddress, hname, addressOn_unheld]
    rfl
  · refine (hwithdraw.managed t a o).trans ?_
    rw [managed?_congr hloopback, hleave.managed, hclears, not_or, and_assoc]
    simp only [Relocation.Marks, haddress, addressOn_unheld]
    rfl

end Leaving

/-! ## Coming back -/

/-- The bus without a node and with its values on their own. -/
def without (b : Bus) (n : NodeId) (x : Node) : Bus :=
  (b.uprooted n x).disowned (b.instancesOf x)

section Without

variable {b : Bus} (hb : b.Sound) {n : NodeId} {x : Node} (hn : b.node? n = some x)

theorem Sound.disowned (hb : b.Sound) {is : List InterfaceId} (his : ∀ i ∈ is, ¬b.Named i) :
    (b.disowned is).Sound := by
  unfold Bus.disowned
  induction is generalizing b with
  | nil => exact hb
  | cons i is ih =>
      have hi := his i List.mem_cons_self
      exact ih (hb.adjustInterface i fun hnamed => absurd hnamed hi)
        fun j hj => his j (List.mem_cons_of_mem i hj)

theorem isLiveInterface_without (b : Bus) (n : NodeId) (x : Node) :
    (b.without n x).isLiveInterface = b.isLiveInterface :=
  isLiveInterface_foldl_setOwner (b.instancesOf x) (b.uprooted n x)

theorem transports_without (b : Bus) (n : NodeId) (x : Node) :
    (b.without n x).transports = b.transports :=
  transports_foldl_setOwner (b.instancesOf x) (b.uprooted n x)

theorem transportsOf_without (b : Bus) (n : NodeId) (x : Node) :
    (b.without n x).transportsOf = b.transportsOf := by
  funext y
  unfold transportsOf isLiveServer
  rw [transports_without]

theorem owner?_without (b : Bus) (n : NodeId) (x : Node) (j : InterfaceId) :
    (b.without n x).owner? j = if j ∈ b.instancesOf x then none else b.owner? j := by
  have hvalue : (b.without n x).interface? j = if j ∈ b.instancesOf x then
      (b.interface? j).map fun v => { v with owner := none } else b.interface? j :=
    interface?_foldl_setOwner (b.instancesOf x) (b.uprooted n x) j
  unfold owner?
  rw [hvalue]
  split
  · cases b.interface? j <;> rfl
  · rfl

theorem forest_without (b : Bus) (n : NodeId) (x : Node) :
    (b.without n x).forest = b.forest.uproot n x.name x.parent x.children :=
  forest_foldl_setOwner (b.instancesOf x) (b.uprooted n x)

include hb hn

theorem node?_without (m : NodeId) : (b.without n x).node? m =
    if m = n then none else (b.node? m).map (Forest.movedUp n x m) := by
  rw [node?, forest_without]
  exact Forest.get?_uproot hb.forest hn m

theorem isLiveNode_without {m : NodeId} (hm : m ≠ n) :
    (b.without n x).isLiveNode m = b.isLiveNode m := by
  rw [isLiveNode, forest_without, Forest.isLive, Forest.get?_uproot hb.forest hn, if_neg hm,
    isLiveNode, Forest.isLive]
  cases b.forest.get? m <;> rfl

theorem Sound.without : (b.without n x).Sound := by
  refine (hb.uprooted hn).disowned fun i hi => ?_
  rintro ⟨m, z, k, hm, hk⟩
  -- a value has one owner only, and this one is gone
  rw [node?_uprooted hb hn] at hm
  split at hm
  · cases hm
  · next hmn =>
      obtain ⟨z, hz, rfl⟩ := Option.map_eq_some_iff.1 hm
      obtain ⟨hmem, hlive⟩ := List.mem_filter.1 hi
      obtain ⟨k', hk'⟩ := (Entries.mem_values_iff (hb.table hn)).1 hmem
      obtain ⟨y, hy, -⟩ := exists_of_isLiveInterface hlive
      have howner := (hb.entry hn hk' hy).2
      rw [(hb.entry hz hk hy).2, Option.some.injEq] at howner
      exact hmn howner

theorem Held.without (hh : b.Held) : (b.without n x).Held where
  nodes {m z} hm := by
    rw [node?_without hb hn] at hm
    split at hm
    · cases hm
    · obtain ⟨y, hy, rfl⟩ := Option.map_eq_some_iff.1 hm
      have hpos := hh.nodes hy
      exact hpos
  values {i v} hi := by
    rw [Bus.without, Bus.disowned, interface?_foldl_setOwner] at hi
    split at hi
    · obtain ⟨w, hw, rfl⟩ := Option.map_eq_some_iff.1 hi
      have hpos := hh.values hw
      exact hpos
    · exact hh.values hi

theorem has_without (m : NodeId) (k : String) (j : InterfaceId) :
    (b.without n x).Has m k j ↔ m ≠ n ∧ b.Has m k j := by
  unfold Has
  rw [node?_without hb hn]
  by_cases hm : m = n
  · simp [hm]
  · simp only [hm, if_false, not_false_eq_true, ne_eq, true_and, Option.map_eq_some_iff]
    constructor
    · rintro ⟨_, ⟨y, hy, rfl⟩, hk⟩
      exact ⟨y, hy, hk⟩
    · rintro ⟨y, hy, hk⟩
      exact ⟨_, ⟨y, hy, rfl⟩, hk⟩

theorem Faithful.without (hh : b.Held) (hf : b.Faithful) : (b.without n x).Faithful := by
  -- the values on their own are all those that believed to be attached there
  have hmem : ∀ {k j}, b.Has n k j → j ∈ b.instancesOf x := by
    rintro k j ⟨x', hx', hk⟩
    obtain rfl := Option.some.inj (hn.symm.trans hx')
    exact List.mem_filter.2 ⟨(Entries.mem_values_iff (hb.table hn)).2 ⟨k, hk⟩,
      hf.isLiveInterface hh hn hk⟩
  intro m k j
  rw [has_without hb hn, owner?_without, hf m k j]
  split
  · next hj =>
      obtain ⟨k', hk'⟩ := (Entries.mem_values_iff (hb.table hn)).1 (List.mem_filter.1 hj).1
      rw [(hf n k' j).1 ⟨x, hn, hk'⟩]
      simp only [ne_eq, Option.some.injEq, Prod.mk.injEq, reduceCtorEq, iff_false]
      rintro ⟨hmn, rfl, -⟩
      exact hmn rfl
  · next hj =>
      refine ⟨And.right, fun hjown => ⟨?_, hjown⟩⟩
      rintro rfl
      exact hj (hmem ((hf m k j).2 hjown))

/-- A moved node has what it had. -/
theorem Relocation.Mirrors.without {m : Relocation} (hm : m.Mirrors b) (hne : m.node ≠ n) :
    m.Mirrors (b.without n x) := by
  obtain ⟨y, hy, hservers, hinterfaces, hmanaging⟩ := hm
  refine ⟨Forest.movedUp n x m.node y, ?_, ?_, ?_, hmanaging⟩
  · rw [node?_without hb hn, if_neg hne, hy]
    rfl
  · rw [transportsOf_without, hservers]
    rfl
  · rw [instancesOf, isLiveInterface_without, hinterfaces]
    rfl

end Without

theorem Relocation.Mirrors.called {m : Relocation} {b b' : Bus} (hm : m.Mirrors b)
    (hc : b.Called b') : m.Mirrors b' := by
  obtain ⟨y, hy, hservers, hinterfaces, hmanaging⟩ := hm
  exact ⟨y, (hc.node? m.node).trans hy, by rw [hc.transportsOf, hservers],
    by rw [hc.instancesOf, hinterfaces], hmanaging⟩

theorem uprooted_unheld (b : Bus) (n : NodeId) (x : Node) :
    (b.unheld n).uprooted n x = b.uprooted n x := by
  unfold Bus.uprooted unheld adjustNode Forest.adjust Forest.uproot
  simp only [Entries.drop_adjust_self]

section Destroyed

variable {b : Bus} (hb : b.Sound) (h : Host) {n : NodeId} {x : Node} (hn : b.node? n = some x)
  (hlast : x.handles = 1)

include hn hlast

theorem isLiveNode_unheld : (b.unheld n).isLiveNode n = false := by
  have hn' : (b.unheld n).forest.get? n = some { x with handles := x.handles - 1 } :=
    node?_unheld hn
  rw [isLiveNode, Forest.isLive, hn']
  simp [hlast]

include hb

theorem destroyNode_unheld :
    (b.unheld n).destroyNode h n =
      ((b.unheld n).moving n { x with handles := x.handles - 1 }).foldl
        (fun b m => b.restore h m) ((b.away h n x).uprooted n x) := by
  have heq := destroyNode_eq (hb.unheld n).orderly (hb.unheld n).forest h (node?_unheld hn)
    (isLiveNode_unheld hn hlast)
  exact heq

/-- Uprooted and with its values on their own, the bus has been called since. -/
theorem called_uprooted_away : (b.without n x).Called ((b.away h n x).uprooted n x) := by
  have haway := (away_spec hb h hn (by omega)).1
  have hdisowned : ((b.unheld n).disowned (b.instancesOf x)).Orderly :=
    orderly_foldl_setOwner (b.instancesOf x) (hb.unheld n).orderly
  have hup := haway.uprooted hdisowned n x
  rw [disowned_uprooted, uprooted_unheld] at hup
  exact hup

/-- What is noted of a moved node is still so when the node is gone. -/
theorem mirrors_without {m : Relocation}
    (hm : m ∈ (b.unheld n).moving n { x with handles := x.handles - 1 }) :
    b.Moves n m.node ∧ m.Mirrors (b.without n x) := by
  have hpos : 0 < x.handles := by omega
  have hmoves := ((mem_moving_unheld hb hn hpos).1 hm).1
  exact ⟨hmoves, (mirrors_of_mem_moving hb hn hpos hm).without hb hn (hmoves.ne hb)⟩

/-- Coming back registers what the moved nodes offer at their new addresses. -/
theorem restores_destroyed :
    Restores (fun t a k d => b.Moves n d ∧ ((b.unheld n).destroyNode h n).Offers d t a k)
      ((b.away h n x).uprooted n x) ((b.unheld n).destroyNode h n) := by
  have hpos : 0 < x.handles := by omega
  have hup := called_uprooted_away hb h hn hlast
  have horderly := hup.orderly (hb.without hn).orderly
  have hrestores := restores_restoreAll horderly h
    ((b.unheld n).moving n { x with handles := x.handles - 1 }) fun m hm => by
      obtain ⟨y, hy, -⟩ := (mirrors_without hb hn hlast hm).2.called hup
      rw [hy]
      rfl
  rw [← destroyNode_unheld hb h hn hlast] at hrestores
  have hcalled := hup.trans hrestores.called
  -- what is noted of a moved node is what the node offers at the end
  refine hrestores.congr fun t a k d => ?_
  constructor
  · rintro ⟨hd, hoffer⟩
    obtain ⟨m, hm, rfl⟩ := exists_mem_moving hb hn hpos hd
    obtain ⟨-, hmirror⟩ := mirrors_without hb hn hlast hm
    refine ⟨m, hm, ?_, rfl⟩
    rw [← hrestores.called.holds_iff]
    exact ((hmirror.called hcalled).holds_iff ((hb.without hn).called hcalled)).2 hoffer
  · rintro ⟨m, hm, hholds, rfl⟩
    obtain ⟨hmoves, hmirror⟩ := mirrors_without hb hn hlast hm
    rw [← hrestores.called.holds_iff] at hholds
    exact ⟨hmoves,
      ((hmirror.called hcalled).holds_iff ((hb.without hn).called hcalled)).1 hholds⟩

/-- Destroying the node only calls transports, once it is uprooted and its values are on their own. -/
theorem called_without : (b.without n x).Called ((b.unheld n).destroyNode h n) :=
  (called_uprooted_away hb h hn hlast).trans (restores_destroyed hb h hn hlast).called

/-- The last of the moved nodes that has something to say about an address decides. -/
theorem managed?_destroyed {t : TransportId} (hl : (b.loopback? t).isSome = true) (a : Address)
    (o : ObjectId) : ((b.unheld n).destroyNode h n).managed? t a = some o ↔
      match ((b.movers n).filter (((b.unheld n).destroyNode h n).marks t a)).getLast? with
      | some d => ((b.unheld n).destroyNode h n).Presents d t a o
      | none => b.managed? t a = some o ∧ ¬b.Clears n t a := by
  have hpos : 0 < x.handles := by omega
  have hup := called_uprooted_away hb h hn hlast
  have haway := away_spec hb h hn hpos
  have hrestores := restores_destroyed hb h hn hlast
  have hcalled := hup.trans hrestores.called
  have hmirrors : ∀ m ∈ (b.unheld n).moving n { x with handles := x.handles - 1 },
      m.Mirrors ((b.unheld n).destroyNode h n) := fun m hm =>
    (mirrors_without hb hn hlast hm).2.called hcalled
  have hnodes : ∀ m ∈ (b.unheld n).moving n { x with handles := x.handles - 1 },
      (((b.away h n x).uprooted n x).node? m.node).isSome = true := by
    intro m hm
    obtain ⟨y, hy, -⟩ := hmirrors m hm
    rw [← hrestores.called.node?, hy]
    rfl
  have hloopback : (((b.away h n x).uprooted n x).loopback? t).isSome = true := by
    rw [hup.loopback?_isSome, loopback?_congr (transports_without b n x), hl]
  have hmanaged := managed?_restoreAll (hup.orderly (hb.without hn).orderly) h _ hnodes hloopback a
  rw [← destroyNode_unheld hb h hn hlast] at hmanaged
  rw [hmanaged, ← map_node_moving hb hn hpos, List.filter_map, List.getLast?_map]
  generalize (b.unheld n).moving n { x with handles := x.handles - 1 } = ms at hmirrors
  -- to leave a mark at the address when coming back is to present something there at the end
  have hfilter : ms.filter (((b.unheld n).destroyNode h n).marks t a ∘ (·.node)) =
      ms.filter fun m => decide (m.Marks ((b.away h n x).uprooted n x) t a) := by
    refine List.filter_congr fun m hm => ?_
    refine Bool.eq_iff_iff.2 ?_
    rw [decide_eq_true_iff, ← hrestores.called.marks_iff, (hmirrors m hm).marks_iff,
      Function.comp_apply, marks_iff]
    refine exists_congr fun o => ?_
    obtain ⟨y, hy, -, -, hmanaging⟩ := hmirrors m hm
    rw [hmanaging, presents_iff hy]
    exact ⟨fun hp => ⟨hp, hp.2⟩, And.left⟩
  rw [hfilter]
  cases hget : (ms.filter fun m =>
      decide (m.Marks ((b.away h n x).uprooted n x) t a)).getLast? with
  | none =>
      simp only [Option.map_none]
      exact haway.2.2 t a o
  | some m =>
      obtain ⟨hm, hmark⟩ := List.mem_filter.1 (List.mem_of_getLast? hget)
      rw [decide_eq_true_iff, ← hrestores.called.marks_iff] at hmark
      obtain ⟨o', ho', -⟩ := (hmirrors m hm).marks_iff.1 hmark
      obtain ⟨y, hy, -, -, hmanaging⟩ := hmirrors m hm
      simp only [Option.map_some, presents_iff hy, hmanaging]
      exact ⟨fun ho => ⟨ho'.1, ho⟩, And.right⟩

/-- **The node was destroyed.** -/
theorem destroyed_spec : b.Destroyed ((b.unheld n).destroyNode h n) n := by
  have hup := called_uprooted_away hb h hn hlast
  have haway := away_spec hb h hn (by omega)
  have hrestores := restores_destroyed hb h hn hlast
  have hcalled := called_without hb h hn hlast
  -- uprooting changes nothing for transports
  have hregistered : ∀ t a k o, ((b.away h n x).uprooted n x).Registered t a k o ↔
      b.Registered t a k o ∧ ¬b.Vacates n t a k := haway.2.1
  have hnode : ∀ m, ((b.unheld n).destroyNode h n).node? m =
      if m = n then none else (b.node? m).map (Forest.movedUp n x m) := fun m =>
    (hcalled.node? m).trans (node?_without hb hn m)
  have hlive : ∀ {m}, m ≠ n →
      ((b.away h n x).uprooted n x).isLiveNode m = b.isLiveNode m := fun {m} hm =>
    calc ((b.away h n x).uprooted n x).isLiveNode m
        = (b.without n x).isLiveNode m := by rw [hup.isLiveNode]
      _ = b.isLiveNode m := isLiveNode_without hb hn hm
  have hlater : b.Later ((b.unheld n).destroyNode h n) := by
    refine (later_of_values (transports_without b n x) fun i hi => ?_).trans hcalled.later
    rwa [isLiveInterface_without] at hi
  have hservers : ∀ t, ((b.unheld n).destroyNode h n).isLiveServer t = b.isLiveServer t := by
    intro t
    rw [hcalled.isLiveServer, isLiveServer, transports_without, isLiveServer]
  refine ⟨hlater, hservers, by rw [hnode, if_pos rfl], ?_, ?_, ?_, ?_, ?_, ?_⟩
  · intro m hm
    rw [hnode, if_neg hm, Option.map_map]
    rfl
  · intro m hm hmoves
    rw [hcalled.forest, forest_without]
    -- the nodes below a root keep their paths; otherwise paths change below the node only
    cases hp : x.parent with
    | none =>
        rw [← hp]
        exact Forest.path_uproot_root hb.forest hn hp hm
    | some p =>
        rw [← hp]
        refine Forest.path_uproot_of_not_below hb.forest hn hm fun hbelow => hmoves ⟨hbelow, ?_⟩
        exact ⟨x, hn, by rw [hp]; rfl⟩
  · intro t a k o hr
    rcases hrestores.only hr with hr | ⟨d, rfl, hd, hoffer⟩
    · exact Or.inl ((hregistered t a k o).1 hr)
    · exact Or.inr ⟨d, rfl, hd, hoffer⟩
  · intro t a k m hr hm hmlive hstays
    exact hrestores.keeps ((hregistered t a k _).2 ⟨hr, hstays⟩) (by rw [hlive hm, hmlive])
  · intro t a k d hd hoffer hdlive hl hold hnew
    refine hrestores.complete ⟨hd, hoffer⟩ (by rw [hlive (hd.ne hb), hdlive]) ?_ ?_ ?_
    · rw [hup.loopback?_isSome, loopback?_congr (transports_without b n x), hl]
    · intro k' o hr
      obtain ⟨hr, hstays⟩ := (hregistered t a k' o).1 hr
      exact hold k' o hr hstays
    · rintro k' d' ⟨hd', hoffer'⟩
      exact hnew d' k' hd' hoffer'
  · intro t a hl o
    exact managed?_destroyed hb h hn hlast hl a o

end Destroyed

/-! ## Letting a node go -/

section Release

variable {b : Bus} (hb : b.Sound) (hh : b.Held) (levels : Nat) {n : NodeId} {x : Node}
  (hn : b.node? n = some x)

include hn

theorem releaseNode_of_last (hlast : x.handles = 1) :
    b.releaseNode (.ofLevels (levels + 1)) n =
      (b.unheld n).destroyNode (.ofLevels levels) n := by
  have hdead : (b.adjustNode n fun x => { x with handles := x.handles - 1 }).isLiveNode n =
      false := isLiveNode_unheld hn hlast
  simp only [releaseNode, hdead, Bool.false_eq_true, if_false]
  rfl

theorem releaseNode_of_more (hh : b.Held) (hmore : x.handles ≠ 1) :
    b.releaseNode (.ofLevels (levels + 1)) n = b.unheld n := by
  have hpos := hh.nodes hn
  have hlive : (b.adjustNode n fun x => { x with handles := x.handles - 1 }).isLiveNode n =
      true := by
    have hget : (b.unheld n).forest.get? n = some { x with handles := x.handles - 1 } :=
      node?_unheld hn
    show (b.unheld n).isLiveNode n = true
    rw [isLiveNode, Forest.isLive, hget]
    simp only [decide_eq_true_eq]
    omega
  simp only [releaseNode, hlive, if_true]
  rfl

include hb hh

/-- The last handle of a node is let go. -/
theorem releaseNode_last (hlast : x.handles = 1) :
    b.Keeps (b.releaseNode (.ofLevels (levels + 1)) n) ∧
      b.Destroyed (b.releaseNode (.ofLevels (levels + 1)) n) n := by
  have hcalled := called_without hb (.ofLevels levels) hn hlast
  rw [releaseNode_of_last levels hn hlast]
  have hkeeps : b.Keeps (b.without n x) :=
    ⟨hb.without hn, Held.without hb hn hh, fun hf => Faithful.without hb hn hh hf⟩
  exact ⟨hkeeps.called hcalled, destroyed_spec hb (.ofLevels levels) hn hlast⟩

/-- A handle of a node is let go, and there are others. -/
theorem releaseNode_more (hmore : x.handles ≠ 1) :
    b.Keeps (b.releaseNode (.ofLevels (levels + 1)) n) ∧
      b.Quiet (b.releaseNode (.ofLevels (levels + 1)) n) := by
  have hpos := hh.nodes hn
  have hn' := node?_unheld hn
  rw [releaseNode_of_more levels hn hh hmore]
  refine ⟨⟨hb.unheld n, ⟨?_, hh.values⟩, fun hf => hf.adjustNode n fun _ => rfl⟩, ?_⟩
  · intro m y hm
    by_cases hmn : m = n
    · subst hmn
      rw [hn', Option.some.injEq] at hm
      rw [← hm]
      simp only
      omega
    · exact hh.nodes ((node?_unheld_of_ne hmn).symm.trans hm)
  · exact quiet_handles b n fun c => c - 1

end Release

end ObjectBus.Bus
