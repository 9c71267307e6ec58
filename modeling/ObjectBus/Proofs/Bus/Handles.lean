import ObjectBus.Bus.Bind
import ObjectBus.Bus.Destroy
import ObjectBus.Proofs.Bus.Calls

/-!
# Holding is transparent

An operation holds what it works on until it is done. As long as nothing calls back, this cannot be
seen: the handles that are taken are let go again, the last handle is never among them, and all that
happens in between is the same with and without them.

`Bus.gripped g` is a bus on which some more handles are held, as `g` counts them. Taking hold and
letting go lead from one such bus to another, and everything else that operations do commutes with
it, provided that nothing is held that was not live (`Grip.Fits`).
-/

set_option autoImplicit false

namespace ObjectBus

/-- **Handles held for the time of an operation.** -/
structure Grip where
  nodes : NodeId → Nat
  interfaces : InterfaceId → Nat
  servers : TransportId → Nat

namespace Grip

/-- Nothing is held. -/
def nothing : Grip := ⟨fun _ => 0, fun _ => 0, fun _ => 0⟩

/-- One more handle for each node of a list. -/
def onNodes (g : Grip) (ns : List NodeId) : Grip :=
  { g with nodes := fun n => g.nodes n + ns.count n }

/-- One more handle for each interface value of a list. -/
def onInterfaces (g : Grip) (is : List InterfaceId) : Grip :=
  { g with interfaces := fun i => g.interfaces i + is.count i }

/-- One more handle for each transport of a list. -/
def onServers (g : Grip) (ts : List TransportId) : Grip :=
  { g with servers := fun t => g.servers t + ts.count t }

theorem count_cons (x y : Nat) (xs : List Nat) :
    (x :: xs).count y = xs.count y + [x].count y := by
  rw [List.count_cons, List.count_cons, List.count_nil, Nat.zero_add]

theorem onServers_cons (g : Grip) (t : TransportId) (ts : List TransportId) :
    g.onServers (t :: ts) = (g.onServers ts).onServers [t] := by
  simp only [onServers, mk.injEq, true_and]
  funext u
  rw [count_cons t u ts, Nat.add_assoc]

theorem onServers_cons' (g : Grip) (t : TransportId) (ts : List TransportId) :
    g.onServers (t :: ts) = (g.onServers [t]).onServers ts := by
  simp only [onServers, mk.injEq, true_and]
  funext u
  rw [count_cons t u ts, Nat.add_assoc, Nat.add_comm (ts.count u)]

theorem onInterfaces_cons (g : Grip) (i : InterfaceId) (is : List InterfaceId) :
    g.onInterfaces (i :: is) = (g.onInterfaces is).onInterfaces [i] := by
  simp only [onInterfaces, mk.injEq, true_and, and_true]
  funext u
  rw [count_cons i u is, Nat.add_assoc]

theorem onInterfaces_cons' (g : Grip) (i : InterfaceId) (is : List InterfaceId) :
    g.onInterfaces (i :: is) = (g.onInterfaces [i]).onInterfaces is := by
  simp only [onInterfaces, mk.injEq, true_and, and_true]
  funext u
  rw [count_cons i u is, Nat.add_assoc, Nat.add_comm (is.count u)]

/-- A node with the handles held on it. -/
def node (g : Grip) (n : NodeId) (x : Node) : Node := { x with handles := x.handles + g.nodes n }

/-- An interface value with the handles held on it. -/
def value (g : Grip) (i : InterfaceId) (x : Instance) : Instance :=
  { x with handles := x.handles + g.interfaces i }

/-- A transport with the handles held on it. -/
def server (g : Grip) (t : TransportId) (s : Server) : Server :=
  { s with handles := s.handles + g.servers t }

/-- **A grip on what is live.** -/
structure Fits (g : Grip) (b : Bus) : Prop where
  nodes : ∀ n, 0 < g.nodes n → b.isLiveNode n = true
  interfaces : ∀ i, 0 < g.interfaces i → b.isLiveInterface i = true
  servers : ∀ t, 0 < g.servers t → b.isLiveServer t = true

theorem fits_nothing (b : Bus) : nothing.Fits b where
  nodes _ h := absurd h (Nat.lt_irrefl 0)
  interfaces _ h := absurd h (Nat.lt_irrefl 0)
  servers _ h := absurd h (Nat.lt_irrefl 0)

theorem Fits.called {g : Grip} {b b' : Bus} (hg : g.Fits b) (h : b.Called b') : g.Fits b' where
  nodes n hn := by rw [h.isLiveNode, hg.nodes n hn]
  interfaces i hi := by rw [h.isLiveInterface, hg.interfaces i hi]
  servers t ht := by rw [h.isLiveServer, hg.servers t ht]

theorem Fits.onNodes {g : Grip} {b : Bus} (hg : g.Fits b) {ns : List NodeId}
    (hns : ∀ n ∈ ns, b.isLiveNode n = true) : (g.onNodes ns).Fits b where
  nodes n hn := by
    rcases Nat.eq_zero_or_pos (g.nodes n) with h0 | hpos
    · refine hns n (List.count_pos_iff.1 ?_)
      simpa [Grip.onNodes, h0] using hn
    · exact hg.nodes n hpos
  interfaces := hg.interfaces
  servers := hg.servers

theorem Fits.onInterfaces {g : Grip} {b : Bus} (hg : g.Fits b) {is : List InterfaceId}
    (his : ∀ i ∈ is, b.isLiveInterface i = true) : (g.onInterfaces is).Fits b where
  nodes := hg.nodes
  interfaces i hi := by
    rcases Nat.eq_zero_or_pos (g.interfaces i) with h0 | hpos
    · refine his i (List.count_pos_iff.1 ?_)
      simpa [Grip.onInterfaces, h0] using hi
    · exact hg.interfaces i hpos
  servers := hg.servers

theorem Fits.onServers {g : Grip} {b : Bus} (hg : g.Fits b) {ts : List TransportId}
    (hts : ∀ t ∈ ts, b.isLiveServer t = true) : (g.onServers ts).Fits b where
  nodes := hg.nodes
  interfaces := hg.interfaces
  servers t ht := by
    rcases Nat.eq_zero_or_pos (g.servers t) with h0 | hpos
    · refine hts t (List.count_pos_iff.1 ?_)
      simpa [Grip.onServers, h0] using ht
    · exact hg.servers t hpos

end Grip

/-- The forest whose nodes are held as `g` says, on top of what is held anyway. -/
def Forest.gripped (f : Forest) (g : Grip) : Forest :=
  { f with nodes := Entries.mapValues g.node f.nodes }

namespace Bus

/-- **The bus on which `g` is held** on top of what is held anyway. -/
def gripped (b : Bus) (g : Grip) : Bus :=
  { b with
    forest := b.forest.gripped g
    interfaces := Entries.mapValues g.value b.interfaces
    transports := Entries.mapValues g.server b.transports }

theorem gripped_nothing (b : Bus) : b.gripped .nothing = b := by
  simp [gripped, Forest.gripped, Entries.mapValues, Grip.nothing, Grip.node, Grip.value, Grip.server]

/-! ## What is seen of a gripped bus -/

section Views

variable (b : Bus) (g : Grip)

theorem get?_gripped (n : NodeId) :
    (b.gripped g).forest.get? n = (b.forest.get? n).map (g.node n) :=
  Entries.get?_mapValues g.node n _

theorem interface?_gripped (i : InterfaceId) :
    (b.gripped g).interface? i = (b.interface? i).map (g.value i) :=
  Entries.get?_mapValues g.value i _

theorem server_gripped (t : TransportId) :
    Entries.get? t (b.gripped g).transports =
      (Entries.get? t b.transports).map (g.server t) :=
  Entries.get?_mapValues g.server t _

@[simp] theorem transport?_gripped (t : TransportId) :
    (b.gripped g).transport? t = b.transport? t := by
  unfold transport?
  rw [server_gripped, Option.map_map]
  rfl

@[simp] theorem loopback?_gripped (t : TransportId) :
    (b.gripped g).loopback? t = b.loopback? t := by
  rw [loopback?, loopback?, transport?_gripped]

@[simp] theorem recorder?_gripped (t : TransportId) :
    (b.gripped g).recorder? t = b.recorder? t := by
  rw [recorder?, recorder?, transport?_gripped]

@[simp] theorem path_gripped (n : NodeId) : (b.gripped g).forest.path n = b.forest.path n := by
  refine Forest.path_of_place (fun m => ?_) n
  rw [get?_gripped, Option.map_map]
  rfl

@[simp] theorem addressText_gripped (n : NodeId) (t : TransportId) :
    (b.gripped g).addressText n t = b.addressText n t := by
  simp [addressText, rootOf]

@[simp] theorem nameOf_gripped (i : InterfaceId) : (b.gripped g).nameOf i = b.nameOf i := by
  unfold nameOf
  rw [interface?_gripped]
  cases b.interface? i <;> rfl

theorem isLiveObject_gripped (o : ObjectId) :
    (b.gripped g).isLiveObject o = b.isLiveObject o := by
  have hcell : ∀ c, (b.gripped g).isLiveCell c = b.isLiveCell c := by
    intro c
    simp [isLiveCell, gripped, Entries.mapValues, List.any_map, Function.comp_def, Grip.value]
  simp only [isLiveObject, hcell]
  simp [gripped, Entries.mapValues, List.any_map, Function.comp_def, Grip.value]

variable {b g}

theorem Orderly.gripped (hb : b.Orderly) (g : Grip) : (b.gripped g).Orderly where
  nodes := Entries.sorted_mapValues hb.nodes g.node
  interfaces := Entries.sorted_mapValues hb.interfaces g.value
  transports := Entries.sorted_mapValues hb.transports g.server
  loopbacks t l hl := hb.loopbacks t l (by simpa using hl)
  hookless t r hr := hb.hookless t r (by simpa using hr)

variable (hg : g.Fits b)

include hg

/-- A count of handles that only grows where there is one. -/
theorem isLiveNode_gripped : (b.gripped g).isLiveNode = b.isLiveNode := by
  funext n
  have hlive := hg.nodes n
  unfold isLiveNode Forest.isLive at *
  rw [get?_gripped]
  cases hx : b.forest.get? n with
  | none => rfl
  | some x =>
      rw [hx] at hlive
      simp only [decide_eq_true_eq] at hlive
      simp only [Option.map_some, Grip.node, decide_eq_decide]
      omega

theorem isLiveInterface_gripped : (b.gripped g).isLiveInterface = b.isLiveInterface := by
  funext i
  have hlive := hg.interfaces i
  unfold isLiveInterface at *
  rw [interface?_gripped]
  cases hx : b.interface? i with
  | none => rfl
  | some x =>
      rw [hx] at hlive
      simp only [decide_eq_true_eq] at hlive
      simp only [Option.map_some, Grip.value, decide_eq_decide]
      omega

theorem isLiveServer_gripped : (b.gripped g).isLiveServer = b.isLiveServer := by
  funext t
  have hlive := hg.servers t
  unfold isLiveServer at *
  rw [server_gripped]
  cases hx : Entries.get? t b.transports with
  | none => rfl
  | some x =>
      rw [hx] at hlive
      simp only [decide_eq_true_eq] at hlive
      simp only [Option.map_some, Grip.server, decide_eq_decide]
      omega

theorem transportsOf_gripped (x : Node) : (b.gripped g).transportsOf x = b.transportsOf x := by
  rw [transportsOf, transportsOf, isLiveServer_gripped hg]

theorem instancesOf_gripped (x : Node) : (b.gripped g).instancesOf x = b.instancesOf x := by
  rw [instancesOf, instancesOf, isLiveInterface_gripped hg]

theorem snapshot_gripped (n : NodeId) : (b.gripped g).snapshot n = b.snapshot n := by
  unfold snapshot node?
  rw [get?_gripped, Option.map_map, isLiveNode_gripped hg]
  cases b.forest.get? n with
  | none => rfl
  | some x =>
      simp only [Option.map_some, Function.comp_apply, Option.some.injEq]
      rw [transportsOf_gripped hg, instancesOf_gripped hg]
      rfl

end Views

/-! ## Taking hold and letting go -/

section Hold

variable {b : Bus} (hb : b.Orderly) (g : Grip) (h : Host)

include hb

/-- Changing how many handles of one node are held. -/
theorem adjustNode_gripped_eq {g g' : Grip} {n : NodeId} {change : Node → Node}
    (hn : ∀ x, change (g.node n x) = g'.node n x) (hne : ∀ m, m ≠ n → g.nodes m = g'.nodes m)
    (hi : g.interfaces = g'.interfaces) (ht : g.servers = g'.servers) :
    (b.gripped g).adjustNode n change = b.gripped g' := by
  have hnodes : Entries.adjust n change (Entries.mapValues g.node b.forest.nodes) =
      Entries.mapValues g'.node b.forest.nodes :=
    Entries.adjust_mapValues_eq hb.nodes hn fun m hm => by
      funext x
      rw [Grip.node, Grip.node, hne m hm]
  have hvalue : g.value = g'.value := by unfold Grip.value; rw [hi]
  have hserver : g.server = g'.server := by unfold Grip.server; rw [ht]
  simp only [gripped, Forest.gripped, adjustNode, Forest.adjust, hnodes, hvalue, hserver]

/-- Changing how many handles of one interface value are held. -/
theorem adjustInterface_gripped_eq {g g' : Grip} {i : InterfaceId} {change : Instance → Instance}
    (hi : ∀ x, change (g.value i x) = g'.value i x)
    (hne : ∀ j, j ≠ i → g.interfaces j = g'.interfaces j) (hn : g.nodes = g'.nodes)
    (ht : g.servers = g'.servers) :
    (b.gripped g).adjustInterface i change = b.gripped g' := by
  have hvalues : Entries.adjust i change (Entries.mapValues g.value b.interfaces) =
      Entries.mapValues g'.value b.interfaces :=
    Entries.adjust_mapValues_eq hb.interfaces hi fun j hj => by
      funext x
      rw [Grip.value, Grip.value, hne j hj]
  have hnode : g.node = g'.node := by unfold Grip.node; rw [hn]
  have hserver : g.server = g'.server := by unfold Grip.server; rw [ht]
  simp only [gripped, Forest.gripped, adjustInterface, hvalues, hnode, hserver]

/-- Changing how many handles of one transport are held. -/
theorem adjustServer_gripped_eq {g g' : Grip} {t : TransportId} {change : Server → Server}
    (ht : ∀ s, change (g.server t s) = g'.server t s)
    (hne : ∀ u, u ≠ t → g.servers u = g'.servers u) (hn : g.nodes = g'.nodes)
    (hi : g.interfaces = g'.interfaces) :
    (b.gripped g).adjustServer t change = b.gripped g' := by
  have hservers : Entries.adjust t change (Entries.mapValues g.server b.transports) =
      Entries.mapValues g'.server b.transports :=
    Entries.adjust_mapValues_eq hb.transports ht fun u hu => by
      funext s
      rw [Grip.server, Grip.server, hne u hu]
  have hnode : g.node = g'.node := by unfold Grip.node; rw [hn]
  have hvalue : g.value = g'.value := by unfold Grip.value; rw [hi]
  simp only [gripped, Forest.gripped, adjustServer, hservers, hnode, hvalue]

theorem holdNode_gripped (n : NodeId) :
    (b.gripped g).holdNode n = b.gripped (g.onNodes [n]) := by
  refine adjustNode_gripped_eq hb (fun x => ?_) (fun m hm => ?_) rfl rfl
  · simp [Grip.node, Grip.onNodes, Nat.add_assoc]
  · simp [Grip.onNodes, hm.symm]

theorem holdInterface_gripped (i : InterfaceId) :
    (b.gripped g).holdInterface i = b.gripped (g.onInterfaces [i]) := by
  refine adjustInterface_gripped_eq hb (fun x => ?_) (fun j hj => ?_) rfl rfl
  · simp [Grip.value, Grip.onInterfaces, Nat.add_assoc]
  · simp [Grip.onInterfaces, hj.symm]

theorem holdServer_gripped (t : TransportId) :
    (b.gripped g).holdServer t = b.gripped (g.onServers [t]) := by
  refine adjustServer_gripped_eq hb (fun s => ?_) (fun u hu => ?_) rfl rfl
  · simp [Grip.server, Grip.onServers, Nat.add_assoc]
  · simp [Grip.onServers, hu.symm]

theorem holdServers_gripped (ts : List TransportId) :
    (b.gripped g).holdServers ts = b.gripped (g.onServers ts) := by
  unfold holdServers
  induction ts generalizing g with
  | nil => simp [Grip.onServers]
  | cons t ts ih => rw [List.foldl_cons, holdServer_gripped hb, ih, ← Grip.onServers_cons']

theorem holdInterfaces_gripped (is : List InterfaceId) :
    (b.gripped g).holdInterfaces is = b.gripped (g.onInterfaces is) := by
  unfold holdInterfaces
  induction is generalizing g with
  | nil => simp [Grip.onInterfaces]
  | cons i is ih => rw [List.foldl_cons, holdInterface_gripped hb, ih, ← Grip.onInterfaces_cons']

theorem releaseServer_gripped (t : TransportId) :
    (b.gripped (g.onServers [t])).releaseServer t = b.gripped g := by
  refine adjustServer_gripped_eq hb (fun s => ?_) (fun u hu => ?_) rfl rfl
  · simp [Grip.server, Grip.onServers]
  · simp [Grip.onServers, hu.symm]

theorem releaseServers_gripped (ts : List TransportId) :
    (b.gripped (g.onServers ts)).releaseServers ts = b.gripped g := by
  unfold releaseServers
  induction ts with
  | nil => simp [Grip.onServers]
  | cons t ts ih => rw [List.foldl_cons, Grip.onServers_cons, releaseServer_gripped hb, ih]

/-- Letting a handle to a node go is nothing more while the node is held otherwise. -/
theorem releaseNode_gripped {n : NodeId} (hg : g.Fits b) (hn : b.isLiveNode n = true) :
    (b.gripped (g.onNodes [n])).releaseNode h n = b.gripped g := by
  have heq : (b.gripped (g.onNodes [n])).adjustNode n
      (fun x => { x with handles := x.handles - 1 }) = b.gripped g := by
    refine adjustNode_gripped_eq hb (fun x => ?_) (fun m hm => ?_) rfl rfl
    · simp [Grip.node, Grip.onNodes]
    · simp [Grip.onNodes, hm.symm]
  simp only [releaseNode, heq, isLiveNode_gripped hg, hn, if_true]

theorem releaseInterface_gripped {i : InterfaceId} (hg : g.Fits b)
    (hi : b.isLiveInterface i = true) :
    (b.gripped (g.onInterfaces [i])).releaseInterface h i = b.gripped g := by
  have heq : (b.gripped (g.onInterfaces [i])).adjustInterface i
      (fun x => { x with handles := x.handles - 1 }) = b.gripped g := by
    refine adjustInterface_gripped_eq hb (fun x => ?_) (fun j hj => ?_) rfl rfl
    · simp [Grip.value, Grip.onInterfaces]
    · simp [Grip.onInterfaces, hj.symm]
  simp only [releaseInterface, heq, isLiveInterface_gripped hg, hi, if_true]

theorem releaseInterfaces_gripped {is : List InterfaceId} (hg : g.Fits b)
    (his : ∀ i ∈ is, b.isLiveInterface i = true) :
    (b.gripped (g.onInterfaces is)).releaseInterfaces h is = b.gripped g := by
  unfold releaseInterfaces
  induction is with
  | nil => simp [Grip.onInterfaces]
  | cons i is ih =>
      have his' : ∀ j ∈ is, b.isLiveInterface j = true :=
        fun j hj => his j (List.mem_cons_of_mem i hj)
      rw [List.foldl_cons, Grip.onInterfaces_cons,
        releaseInterface_gripped hb _ h (hg.onInterfaces his') (his i List.mem_cons_self), ih his']

end Hold

end Bus

end ObjectBus
