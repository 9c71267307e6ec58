import ObjectBus.Proofs.Bus.Transparency

/-!
# Destruction without its handles

A node that is destroyed leaves its transports; then its interface values are on their own; then the
nodes below it leave their addresses, the tree is rewritten, and they come to their new ones. On the
way everything that is touched is held, and `destroyNode_eq` says that this does not matter.

Which nodes have to move is said by `Bus.moving`: those below a node that has a parent. Below a root
nobody moves.
-/

set_option autoImplicit false

namespace ObjectBus

namespace Grip

/-- The handles that `Bus.pin` takes. -/
def pinned (g : Grip) (m : Bus.Relocation) : Grip :=
  ((if m.isHeld then g.onNodes [m.node] else g).onServers m.servers).onInterfaces m.interfaces

theorem pinned_comm (g : Grip) (m m' : Bus.Relocation) :
    (g.pinned m).pinned m' = (g.pinned m').pinned m := by
  unfold pinned onInterfaces onServers onNodes
  cases m.isHeld <;> cases m'.isHeld <;>
    simp [Nat.add_right_comm]

theorem foldl_pinned_cons (g : Grip) (m : Bus.Relocation) (ms : List Bus.Relocation) :
    (m :: ms).foldl pinned g = (ms.foldl pinned g).pinned m := by
  induction ms generalizing g with
  | nil => rfl
  | cons m' ms ih =>
      rw [List.foldl_cons, List.foldl_cons, pinned_comm, ← List.foldl_cons, ih, List.foldl_cons]

end Grip

namespace Bus

/-- **Everything that is pinned was live.** -/
structure Relocation.Fits (m : Relocation) (b : Bus) : Prop where
  node : m.isHeld = true → b.isLiveNode m.node = true
  servers : ∀ t ∈ m.servers, b.isLiveServer t = true
  interfaces : ∀ i ∈ m.interfaces, b.isLiveInterface i = true

/-- **The nodes that a destroyed node moves**, with what they have. -/
def moving (b : Bus) (n : NodeId) (node : Node) : List Relocation :=
  if node.parent.isSome then (b.forest.descendants n).filterMap b.snapshot else []

theorem Relocation.Fits.grip {g : Grip} {b : Bus} {m : Relocation} (hm : Relocation.Fits m b)
    (hg : g.Fits b) : (g.pinned m).Fits b := by
  refine Grip.Fits.onInterfaces (Grip.Fits.onServers ?_ hm.servers) hm.interfaces
  split
  · next hheld =>
      exact hg.onNodes fun n hn => List.mem_singleton.1 hn ▸ hm.node hheld
  · exact hg

theorem fits_foldl_pinned {g : Grip} {b : Bus} (hg : g.Fits b) {ms : List Relocation}
    (hms : ∀ m ∈ ms, Relocation.Fits m b) : (ms.foldl Grip.pinned g).Fits b := by
  induction ms with
  | nil => exact hg
  | cons m ms ih =>
      rw [Grip.foldl_pinned_cons]
      exact (hms m List.mem_cons_self).grip
        (ih fun m' hm' => hms m' (List.mem_cons_of_mem m hm'))

section Pins

variable {b : Bus} (hb : b.Orderly) (h : Host)

include hb

theorem pin_gripped (g : Grip) (m : Relocation) : (b.gripped g).pin m = b.gripped (g.pinned m) := by
  unfold pin Grip.pinned
  cases m.isHeld <;>
    simp [holdNode_gripped hb, holdServers_gripped hb, holdInterfaces_gripped hb]

theorem foldl_pin_gripped (g : Grip) (ms : List Relocation) :
    ms.foldl pin (b.gripped g) = b.gripped (ms.foldl Grip.pinned g) := by
  induction ms generalizing g with
  | nil => rfl
  | cons m ms ih => rw [List.foldl_cons, pin_gripped hb, ih, List.foldl_cons]

theorem unpin_gripped {g : Grip} (hg : g.Fits b) {m : Relocation} (hm : Relocation.Fits m b) :
    (b.gripped (g.pinned m)).unpin h m = b.gripped g := by
  have hg' : ((g.onServers m.servers).onInterfaces m.interfaces).Fits b :=
    (hg.onServers hm.servers).onInterfaces hm.interfaces
  have hnode : (if m.isHeld then (b.gripped (g.pinned m)).releaseNode h m.node
      else b.gripped (g.pinned m)) =
        b.gripped ((g.onServers m.servers).onInterfaces m.interfaces) := by
    unfold Grip.pinned
    split
    · next hheld =>
        exact releaseNode_gripped hb ((g.onServers m.servers).onInterfaces m.interfaces) h hg'
          (hm.node hheld)
    · rfl
  simp only [unpin, hnode]
  have hswap : (g.onServers m.servers).onInterfaces m.interfaces =
      (g.onInterfaces m.interfaces).onServers m.servers := rfl
  rw [hswap, releaseServers_gripped hb, releaseInterfaces_gripped hb g h hg hm.interfaces]

theorem foldl_unpin_gripped {g : Grip} (hg : g.Fits b) {ms : List Relocation}
    (hms : ∀ m ∈ ms, Relocation.Fits m b) :
    ms.foldl (fun b m => b.unpin h m) (b.gripped (ms.foldl Grip.pinned g)) = b.gripped g := by
  induction ms with
  | nil => rfl
  | cons m ms ih =>
      have hms' : ∀ m' ∈ ms, Relocation.Fits m' b :=
        fun m' hm' => hms m' (List.mem_cons_of_mem m hm')
      rw [Grip.foldl_pinned_cons, List.foldl_cons,
        unpin_gripped hb h (fits_foldl_pinned hg hms') (hms m List.mem_cons_self), ih hms']

end Pins

/-! ## Setting values free -/

theorem forest_foldl_setOwner (is : List InterfaceId) (b : Bus) :
    (is.foldl (fun b i => b.setOwner i none) b).forest = b.forest := by
  induction is generalizing b with
  | nil => rfl
  | cons i is ih => rw [List.foldl_cons, ih]; rfl

theorem transports_foldl_setOwner (is : List InterfaceId) (b : Bus) :
    (is.foldl (fun b i => b.setOwner i none) b).transports = b.transports := by
  induction is generalizing b with
  | nil => rfl
  | cons i is ih => rw [List.foldl_cons, ih]; rfl

theorem next_foldl_setOwner (is : List InterfaceId) (b : Bus) :
    (is.foldl (fun b i => b.setOwner i none) b).next = b.next := by
  induction is generalizing b with
  | nil => rfl
  | cons i is ih => rw [List.foldl_cons, ih]; rfl

theorem isLiveInterface_foldl_setOwner (is : List InterfaceId) (b : Bus) :
    (is.foldl (fun b i => b.setOwner i none) b).isLiveInterface = b.isLiveInterface := by
  induction is generalizing b with
  | nil => rfl
  | cons i is ih => rw [List.foldl_cons, ih, isLiveInterface_setOwner]

theorem nameOf_foldl_setOwner (is : List InterfaceId) (b : Bus) (j : InterfaceId) :
    (is.foldl (fun b i => b.setOwner i none) b).nameOf j = b.nameOf j := by
  induction is generalizing b with
  | nil => rfl
  | cons i is ih => rw [List.foldl_cons, ih, nameOf_setOwner]

theorem orderly_foldl_setOwner (is : List InterfaceId) {b : Bus} (hb : b.Orderly) :
    (is.foldl (fun b i => b.setOwner i none) b).Orderly := by
  induction is generalizing b with
  | nil => exact hb
  | cons i is ih => exact ih (hb.setOwner i none)

theorem foldl_setOwner_gripped (is : List InterfaceId) (b : Bus) (g : Grip) :
    is.foldl (fun b i => b.setOwner i none) (b.gripped g) =
      (is.foldl (fun b i => b.setOwner i none) b).gripped g := by
  induction is generalizing b with
  | nil => rfl
  | cons i is ih => rw [List.foldl_cons, setOwner_gripped, ih, List.foldl_cons]

/-- The owner of an interface value after some were set free. -/
theorem interface?_foldl_setOwner (is : List InterfaceId) (b : Bus) (j : InterfaceId) :
    (is.foldl (fun b i => b.setOwner i none) b).interface? j =
      if j ∈ is then (b.interface? j).map fun x => { x with owner := none }
      else b.interface? j := by
  induction is generalizing b with
  | nil => simp
  | cons i is ih =>
      rw [List.foldl_cons, ih, interface?_setOwner]
      by_cases hji : j = i
      · subst hji
        cases b.interface? j with
        | none => simp
        | some x => by_cases hj : j ∈ is <;> simp [hj]
      · simp [hji]

/-! ## The equation -/

theorem snapshot_called {b b' : Bus} (hcalled : b.Called b') : b'.snapshot = b.snapshot := by
  funext n
  unfold snapshot
  rw [hcalled.node?, hcalled.isLiveNode]
  congr 1
  funext x
  rw [hcalled.transportsOf, hcalled.instancesOf]

theorem snapshot_foldl_setOwner (is : List InterfaceId) (b : Bus) :
    (is.foldl (fun b i => b.setOwner i none) b).snapshot = b.snapshot := by
  have hservers : (is.foldl (fun b i => b.setOwner i none) b).isLiveServer = b.isLiveServer := by
    funext t
    unfold isLiveServer
    rw [transports_foldl_setOwner]
  funext n
  unfold snapshot node? isLiveNode transportsOf instancesOf
  rw [forest_foldl_setOwner, isLiveInterface_foldl_setOwner, hservers]

theorem fits_snapshot {b : Bus} {n : NodeId} {m : Relocation} (hm : b.snapshot n = some m) :
    Relocation.Fits m b ∧ m.node = n := by
  unfold snapshot at hm
  obtain ⟨x, hx, rfl⟩ := Option.map_eq_some_iff.1 hm
  exact ⟨⟨id, fun t ht => live_of_mem_transportsOf ht, fun i hi => live_of_mem_instancesOf hi⟩, rfl⟩

theorem mem_moving {b : Bus} (hf : b.forest.WellFormed) {n : NodeId} {node : Node}
    {m : Relocation} :
    m ∈ b.moving n node ↔
      node.parent.isSome = true ∧ b.forest.Below n m.node ∧ b.snapshot m.node = some m := by
  unfold moving
  split
  · next hp =>
      simp only [hp, true_and, List.mem_filterMap]
      constructor
      · rintro ⟨d, hd, hm⟩
        have hnode := (fits_snapshot hm).2
        rw [Forest.mem_descendants_iff hf] at hd
        exact ⟨hnode ▸ hd, hnode ▸ hm⟩
      · rintro ⟨hd, hm⟩
        exact ⟨m.node, (Forest.mem_descendants_iff hf).2 hd, hm⟩
  · next hp => simp [hp]

/-- The bus after uprooting a node. -/
def uprooted (b : Bus) (n : NodeId) (node : Node) : Bus :=
  { b with forest := b.forest.uproot n node.name node.parent node.children }

theorem Orderly.uprooted {b : Bus} (hb : b.Orderly) (hf : b.forest.WellFormed) (n : NodeId)
    (node : Node) : (b.uprooted n node).Orderly :=
  ⟨Forest.sorted_uproot hf.sorted n node.name node.parent node.children, hb.interfaces,
    hb.transports, hb.loopbacks, hb.hookless⟩

theorem Called.uprooted {b b' : Bus} (hcalled : b.Called b') (hb : b.Orderly) (n : NodeId)
    (node : Node) : (b.uprooted n node).Called (b'.uprooted n node) where
  forest := by rw [Bus.uprooted, Bus.uprooted, hcalled.forest]
  interfaces := hcalled.interfaces
  next := hcalled.next
  alike := hcalled.alike
  orderly ho := by
    have hb' := hcalled.orderly hb
    refine ⟨?_, hb'.interfaces, hb'.transports, hb'.loopbacks, hb'.hookless⟩
    rw [Bus.uprooted, hcalled.forest]
    exact ho.nodes

theorem uprooted_gripped (b : Bus) (g : Grip) (n : NodeId) (node : Node) :
    (b.gripped g).uprooted n node = (b.uprooted n node).gripped g := by
  simp only [uprooted, gripped, Forest.uproot_gripped]

/-- Uprooting a node leaves the others as live as they were. -/
theorem isLive_uproot {f : Forest} (hf : f.WellFormed) {n : NodeId} {node : Node}
    (hn : f.get? n = some node) {m : NodeId} (hmn : m ≠ n) :
    (f.uproot n node.name node.parent node.children).isLive m = f.isLive m := by
  unfold Forest.isLive
  rw [Forest.get?_uproot hf hn, if_neg hmn]
  cases f.get? m <;> rfl

/-- **The way of the nodes below**: they leave their addresses, the tree is rewritten, and they come
to their new ones. -/
def relocate (h : Host) (n : NodeId) (node : Node) (ms : List Relocation) (b : Bus) : Bus :=
  let b := ms.foldl (fun b m => b.withdraw h m) b
  let b := b.uprooted n node
  ms.foldl (fun b m => b.restore h m) b

section Equation

variable {b : Bus} (hb : b.Orderly) (hf : b.forest.WellFormed) (h : Host) {n : NodeId} {node : Node}
  (hn : b.node? n = some node) (hdead : b.isLiveNode n = false)

include hb hf hn hdead

omit hn hdead in
/-- But for uprooting, moving only calls. -/
theorem called_relocate (ms : List Relocation) :
    (b.uprooted n node).Called (relocate h n node ms b) := by
  have haway := (withdraws_withdrawAll hb h ms).called
  have hb_up := (haway.orderly hb).uprooted (haway.forest ▸ hf) n node
  have hback := (Transparent.foldl ms (fun m _ => transparent_restore h m) _ _ hb_up
    (Grip.fits_nothing _)).1
  exact (haway.uprooted hb n node).trans hback

/-- Moving is the same while all that moves is pinned. -/
theorem relocate_pinned {g : Grip} (hg : g.Fits b) {ms : List Relocation}
    (hms : ∀ m ∈ ms, Relocation.Fits m b) :
    ms.foldl (fun b m => b.unpin h m) (relocate h n node ms (ms.foldl pin (b.gripped g))) =
      (relocate h n node ms b).gripped g := by
  have hpinned := fits_foldl_pinned hg hms
  rw [foldl_pin_gripped hb]
  obtain ⟨haway, haway_eq⟩ :=
    Transparent.foldl ms (fun m _ => transparent_withdraw h m) b _ hb hpinned
  -- uprooting leaves what is pinned as live as it was
  have hlive : ∀ m, b.isLiveNode m = true →
      ((ms.foldl (fun b m => b.withdraw h m) b).uprooted n node).isLiveNode m = true := by
    intro m hm
    have hmn : m ≠ n := by
      rintro rfl
      rw [hdead] at hm
      cases hm
    unfold isLiveNode uprooted
    rw [haway.forest, isLive_uproot hf hn hmn]
    exact hm
  have hup : ∀ {g : Grip}, g.Fits b →
      g.Fits ((ms.foldl (fun b m => b.withdraw h m) b).uprooted n node) :=
    fun hg' => ⟨fun m hm => hlive m (hg'.nodes m hm), (hg'.called haway).interfaces,
      (hg'.called haway).servers⟩
  have hb_up := (haway.orderly hb).uprooted (haway.forest ▸ hf) n node
  obtain ⟨hback, hback_eq⟩ :=
    Transparent.foldl ms (fun m _ => transparent_restore h m) _ _ hb_up (hup hpinned)
  have hms_back : ∀ m ∈ ms, Relocation.Fits m (relocate h n node ms b) := by
    intro m hm
    refine ⟨fun hheld => ?_, fun t ht => ?_, fun i hi => ?_⟩
    · exact (congrFun hback.isLiveNode m.node).trans (hlive m.node ((hms m hm).node hheld))
    · exact (congrFun hback.isLiveServer t).trans
        ((congrFun haway.isLiveServer t).trans ((hms m hm).servers t ht))
    · exact (congrFun hback.isLiveInterface i).trans
        ((congrFun haway.isLiveInterface i).trans ((hms m hm).interfaces i hi))
  -- going away, uprooting and coming back are each the same on the gripped bus
  have hrelocate : relocate h n node ms (b.gripped (ms.foldl Grip.pinned g)) =
      (relocate h n node ms b).gripped (ms.foldl Grip.pinned g) := by
    simp only [relocate]
    simp only at haway_eq hback_eq
    rw [haway_eq, uprooted_gripped, hback_eq]
  rw [hrelocate]
  exact foldl_unpin_gripped (hback.orderly hb_up) h ((hup hg).called hback) hms_back

end Equation

/-- What is left to do once the interface values were set free: moving, and letting go. -/
def finish (h : Host) (n : NodeId) (node : Node) (servers : List TransportId)
    (held : List InterfaceId) (b : Bus) : Bus :=
  let moved := b.moving n node
  let b := moved.foldl (fun b m => b.unpin h m) (relocate h n node moved (moved.foldl pin b))
  (b.releaseInterfaces h held).releaseServers servers

/-- What is left to do once the node has left its transports. -/
def setFree (h : Host) (n : NodeId) (node : Node) (servers : List TransportId) (b : Bus) : Bus :=
  let held := (Entries.values node.interfaces).filter b.isLiveInterface
  finish h n node servers held (held.foldl (fun b i => b.setOwner i none) (b.holdInterfaces held))

theorem destroyNode_stages (h : Host) {b : Bus} {n : NodeId} {node : Node}
    (hn : b.node? n = some node) :
    b.destroyNode h n =
      setFree h n node (b.transportsOf node) ((b.transportsOf node).foldl
        (fun b t => b.leave h n (Entries.keys node.interfaces) node.managing.isSome t)
        (b.holdServers (b.transportsOf node))) := by
  simp only [destroyNode, hn]
  rfl

theorem moving_gripped {b : Bus} {g : Grip} (hg : g.Fits b) (n : NodeId) (node : Node) :
    (b.gripped g).moving n node = b.moving n node := by
  have hsnap : (b.gripped g).snapshot = b.snapshot := funext fun m => snapshot_gripped hg m
  have hdesc : (b.gripped g).forest.descendants n = b.forest.descendants n :=
    Forest.descendants_gripped b.forest g n
  unfold moving
  rw [hsnap, hdesc]

section Stages

variable {b : Bus} (hb : b.Orderly) (hf : b.forest.WellFormed) (h : Host) {n : NodeId} {node : Node}
  (hn : b.node? n = some node) (hdead : b.isLiveNode n = false)

include hb hf hn hdead

theorem finish_eq {servers : List TransportId}
    (hservers : ∀ t ∈ servers, b.isLiveServer t = true) {held : List InterfaceId}
    (hheld : ∀ i ∈ held, b.isLiveInterface i = true) :
    finish h n node servers held
        (b.gripped ((Grip.nothing.onServers servers).onInterfaces held)) =
      relocate h n node (b.moving n node) b := by
  have hg : ((Grip.nothing.onServers servers).onInterfaces held).Fits b :=
    ((Grip.fits_nothing b).onServers hservers).onInterfaces hheld
  have hms : ∀ m ∈ b.moving n node, Relocation.Fits m b :=
    fun m hm => (fits_snapshot ((mem_moving hf).1 hm).2.2).1
  have hcalled : (b.uprooted n node).Called (relocate h n node (b.moving n node) b) :=
    called_relocate hb hf h (b.moving n node)
  have hafter := hcalled.orderly (hb.uprooted hf n node)
  have hservers' : ∀ t ∈ servers, (relocate h n node (b.moving n node) b).isLiveServer t = true :=
    fun t ht => (congrFun hcalled.isLiveServer t).trans (hservers t ht)
  have hheld' : ∀ i ∈ held, (relocate h n node (b.moving n node) b).isLiveInterface i = true :=
    fun i hi => (congrFun hcalled.isLiveInterface i).trans (hheld i hi)
  simp only [finish, moving_gripped hg]
  rw [relocate_pinned hb hf h hn hdead hg hms,
    releaseInterfaces_gripped hafter _ h ((Grip.fits_nothing _).onServers hservers') hheld',
    releaseServers_gripped hafter, gripped_nothing]

/-- **Destroying a node**, step by step. -/
theorem destroyNode_eq :
    b.destroyNode h n =
      relocate h n node (b.moving n node)
        ((b.instancesOf node).foldl (fun b i => b.setOwner i none)
          ((b.transportsOf node).foldl
            (fun b t => b.leave h n (Entries.keys node.interfaces) node.managing.isSome t) b)) := by
  have hservers : ∀ t ∈ b.transportsOf node, b.isLiveServer t = true :=
    fun t ht => live_of_mem_transportsOf ht
  have hg := (Grip.fits_nothing b).onServers hservers
  obtain ⟨hleft, hleft_eq⟩ := Transparent.foldl (b.transportsOf node)
    (fun t _ => transparent_leave h n (Entries.keys node.interfaces) node.managing.isSome t)
    b _ hb hg
  simp only at hleft hleft_eq
  rw [destroyNode_stages h hn, holdServers_eq hb, hleft_eq]
  generalize (b.transportsOf node).foldl
    (fun b t => b.leave h n (Entries.keys node.interfaces) node.managing.isSome t) b = left at *
  have hb_left := hleft.orderly hb
  -- the calls have left the values as live as they were
  have hheld : (Entries.values node.interfaces).filter
      (left.gripped (Grip.nothing.onServers (b.transportsOf node))).isLiveInterface =
        b.instancesOf node := by
    rw [isLiveInterface_gripped (hg.called hleft), hleft.isLiveInterface]
    rfl
  simp only [setFree, hheld]
  rw [holdInterfaces_gripped hb_left, foldl_setOwner_gripped]
  have hforest : ((b.instancesOf node).foldl (fun b i => b.setOwner i none) left).forest =
      b.forest := (forest_foldl_setOwner _ _).trans hleft.forest
  -- what moves is noted when the values are free, but it is the same as before
  have hmoving : ((b.instancesOf node).foldl (fun b i => b.setOwner i none) left).moving n node =
      b.moving n node := by
    unfold moving
    rw [hforest, snapshot_foldl_setOwner, snapshot_called hleft]
  rw [finish_eq (orderly_foldl_setOwner _ hb_left) (hforest ▸ hf) h ?_ ?_ ?_ ?_, hmoving]
  · rw [node?, hforest]
    exact hn
  · rw [isLiveNode, hforest]
    exact hdead
  · intro t ht
    rw [isLiveServer, transports_foldl_setOwner]
    exact (congrFun hleft.isLiveServer t).trans (hservers t ht)
  · intro i hi
    rw [isLiveInterface_foldl_setOwner, hleft.isLiveInterface]
    exact live_of_mem_instancesOf hi

end Stages

end Bus

end ObjectBus
