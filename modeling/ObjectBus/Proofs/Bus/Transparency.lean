import ObjectBus.Bus.Attach
import ObjectBus.Proofs.Bus.Handles
import ObjectBus.Proofs.Bus.Restoration

/-!
# Operations without their handles

Each operation of the bus is equal to the same operation without taking hold and letting go
(`attach_eq`, `detach_eq`, `release_eq`, `bind_eq`, `manage_eq`, `destroyNode_eq`). All later proofs
start from these equations.

Work on transports is `Transparent`: it does the same on a gripped bus, and only calls. Other work
changes the tree or the interface values in a way that has nothing to do with handles.
-/

set_option autoImplicit false

namespace ObjectBus

/-! ## What operations do to a node -/

/-- The node without one of its names. -/
def Node.dropName (name : String) (x : Node) : Node :=
  { x with interfaces := Entries.drop name x.interfaces }

/-- The node with another object, or with none. -/
def Node.manage (object : Option ObjectId) (x : Node) : Node := { x with managing := object }

/-- The node bound to one more transport. -/
def Node.bindTo (t : TransportId) (x : Node) : Node := { x with servers := x.servers ++ [t] }

/-- The node bound to a transport no more. -/
def Node.unbindFrom (t : TransportId) (x : Node) : Node :=
  { x with servers := x.servers.filter (· != t) }

theorem Node.eq_dropName (name : String) :
    (fun x : Node => { x with interfaces := Entries.drop name x.interfaces }) =
      Node.dropName name := rfl

theorem Node.eq_manage (object : Option ObjectId) :
    (fun x : Node => { x with managing := object }) = Node.manage object := rfl

theorem Node.eq_bindTo (t : TransportId) :
    (fun x : Node => { x with servers := x.servers ++ [t] }) = Node.bindTo t := rfl

@[simp] theorem Node.interfaces_dropName (name : String) (x : Node) :
    (x.dropName name).interfaces = Entries.drop name x.interfaces := rfl

@[simp] theorem Node.managing_dropName (name : String) (x : Node) :
    (x.dropName name).managing = x.managing := rfl

@[simp] theorem Node.interfaces_bindTo (t : TransportId) (x : Node) :
    (x.bindTo t).interfaces = x.interfaces := rfl

@[simp] theorem Node.managing_bindTo (t : TransportId) (x : Node) :
    (x.bindTo t).managing = x.managing := rfl

@[simp] theorem Node.mem_servers_bindTo {t u : TransportId} {x : Node} :
    u ∈ (x.bindTo t).servers ↔ u ∈ x.servers ∨ u = t := by
  simp [Node.bindTo]

@[simp] theorem Node.mem_servers_unbindFrom {t u : TransportId} {x : Node} :
    u ∈ (x.unbindFrom t).servers ↔ u ∈ x.servers ∧ u ≠ t := by
  simp [Node.unbindFrom]

/-- A name that is not there is not missed. -/
theorem Node.dropName_eq_self {name : String} {x : Node}
    (h : Entries.get? name x.interfaces = none) : x.dropName name = x := by
  rw [dropName, Entries.drop_eq_self h]

/-! ## Handles and other work -/

/-- A change of a node that has nothing to do with its handles. -/
def IgnoresHandles (change : Node → Node) : Prop :=
  ∀ x c, change { x with handles := c } = { change x with handles := c }

theorem IgnoresHandles.handles {change : Node → Node} (h : IgnoresHandles change) (x : Node) :
    (change x).handles = x.handles := by
  have heq := congrArg Node.handles (h x x.handles)
  exact heq

theorem IgnoresHandles.node {change : Node → Node} (h : IgnoresHandles change) (g : Grip)
    (n : NodeId) (x : Node) : change (g.node n x) = g.node n (change x) := by
  rw [Grip.node, h, Grip.node, h.handles]

namespace Bus

/-! ## Changes of the tree and of interface values -/

section Changes

variable {b : Bus} {g : Grip}

theorem Orderly.adjustNode (hb : b.Orderly) (n : NodeId) (change : Node → Node) :
    (b.adjustNode n change).Orderly :=
  ⟨Entries.sorted_adjust hb.nodes n change, hb.interfaces, hb.transports, hb.loopbacks,
    hb.hookless⟩

theorem Orderly.setOwner (hb : b.Orderly) (i : InterfaceId) (o : Option NodeId) :
    (b.setOwner i o).Orderly :=
  ⟨hb.nodes, Entries.sorted_adjust hb.interfaces i _, hb.transports, hb.loopbacks, hb.hookless⟩

theorem isLiveNode_adjustNode {change : Node → Node} (hc : IgnoresHandles change) (n : NodeId) :
    (b.adjustNode n change).isLiveNode = b.isLiveNode := by
  funext m
  unfold isLiveNode Forest.isLive adjustNode
  rw [Forest.get?_adjust]
  by_cases hmn : m = n
  · rw [if_pos hmn]
    cases b.forest.get? m with
    | none => rfl
    | some x => simp [hc.handles]
  · rw [if_neg hmn]

theorem interface?_setOwner (i j : InterfaceId) (o : Option NodeId) :
    (b.setOwner i o).interface? j =
      if j = i then (b.interface? j).map fun x => { x with owner := o } else b.interface? j :=
  Entries.get?_adjust i j _ b.interfaces

theorem isLiveInterface_setOwner (i : InterfaceId) (o : Option NodeId) :
    (b.setOwner i o).isLiveInterface = b.isLiveInterface := by
  funext j
  unfold isLiveInterface
  rw [interface?_setOwner]
  by_cases hji : j = i
  · rw [if_pos hji]
    cases b.interface? j <;> rfl
  · rw [if_neg hji]

theorem nameOf_setOwner (i : InterfaceId) (o : Option NodeId) (j : InterfaceId) :
    (b.setOwner i o).nameOf j = b.nameOf j := by
  unfold nameOf
  rw [interface?_setOwner]
  by_cases hji : j = i
  · rw [if_pos hji]
    cases b.interface? j <;> rfl
  · rw [if_neg hji]

end Changes

end Bus

namespace Grip

variable {g : Grip} {b : Bus}

theorem Fits.adjustNode (hg : g.Fits b) {change : Node → Node} (hc : IgnoresHandles change)
    (n : NodeId) : g.Fits (b.adjustNode n change) :=
  ⟨fun m hm => by rw [Bus.isLiveNode_adjustNode hc, hg.nodes m hm], hg.interfaces, hg.servers⟩

end Grip

namespace Forest

theorem adjust_gripped {change : Node → Node} (hc : IgnoresHandles change) (f : Forest) (g : Grip)
    (n : NodeId) : (f.gripped g).adjust n change = (f.adjust n change).gripped g := by
  simp only [adjust, gripped]
  rw [Entries.adjust_mapValues fun x => hc.node g n x]

theorem foldl_adjust_gripped {change : Node → Node} (hc : IgnoresHandles change) (cs : List NodeId)
    (f : Forest) (g : Grip) :
    cs.foldl (fun f c => f.adjust c change) (f.gripped g) =
      (cs.foldl (fun f c => f.adjust c change) f).gripped g := by
  induction cs generalizing f with
  | nil => rfl
  | cons c cs ih => rw [List.foldl_cons, adjust_gripped hc, ih, List.foldl_cons]

/-- Uprooting has nothing to do with handles. -/
theorem uproot_gripped (f : Forest) (g : Grip) (n : NodeId) (name : String)
    (parent : Option NodeId) (children : List NodeId) :
    (f.gripped g).uproot n name parent children = (f.uproot n name parent children).gripped g := by
  have hdrop : { f.gripped g with nodes := Entries.drop n (f.gripped g).nodes } =
      Forest.gripped { f with nodes := Entries.drop n f.nodes } g := by
    simp only [gripped, Entries.drop_mapValues]
  unfold uproot
  cases parent with
  | none => rw [hdrop, foldl_adjust_gripped fun _ _ => rfl]
  | some p =>
      simp only
      rw [hdrop, adjust_gripped fun _ _ => rfl, foldl_adjust_gripped fun _ _ => rfl]

theorem descendants_gripped (f : Forest) (g : Grip) (n : NodeId) :
    (f.gripped g).descendants n = f.descendants n := by
  have hget : ∀ m, (f.gripped g).get? m = (f.get? m).map (g.node m) :=
    fun m => Entries.get?_mapValues g.node m _
  have hsweep : ∀ steps stack, (f.gripped g).sweep steps stack = f.sweep steps stack := by
    intro steps
    induction steps with
    | zero => intro stack; rfl
    | succ steps ih =>
        intro stack
        cases stack with
        | nil => rfl
        | cons m stack =>
            simp only [sweep, hget]
            cases f.get? m with
            | none => simp only [Option.map_none, ih]
            | some x => simp only [Option.map_some, ih]; rfl
  have hcount : (f.gripped g).linkCount = f.linkCount := by
    simp [linkCount, gripped, Entries.mapValues, List.foldr_map, Grip.node]
  simp only [descendants, hget, hsweep, hcount]
  cases f.get? n <;> rfl

end Forest

namespace Bus

theorem adjustNode_gripped (b : Bus) (g : Grip) {change : Node → Node} (hc : IgnoresHandles change)
    (n : NodeId) : (b.gripped g).adjustNode n change = (b.adjustNode n change).gripped g := by
  simp only [adjustNode, gripped, Forest.adjust_gripped hc]

theorem setOwner_gripped (b : Bus) (g : Grip) (i : InterfaceId) (o : Option NodeId) :
    (b.gripped g).setOwner i o = (b.setOwner i o).gripped g := by
  simp only [setOwner, adjustInterface, gripped]
  rw [Entries.adjust_mapValues]
  intro x
  rfl

theorem adjustServer_gripped (b : Bus) (g : Grip) (t : TransportId) (s : Transport) :
    (b.gripped g).adjustServer t (fun r => { r with transport := s }) =
      (b.adjustServer t fun r => { r with transport := s }).gripped g := by
  simp only [adjustServer, gripped]
  rw [Entries.adjust_mapValues]
  intro x
  rfl

/-! ## Calls -/

/-- **Work that only calls**, and cannot see what is held meanwhile. -/
def Transparent (f : Bus → Bus) : Prop :=
  ∀ b g, b.Orderly → g.Fits b → b.Called (f b) ∧ f (b.gripped g) = (f b).gripped g

namespace Transparent

theorem comp {f f' : Bus → Bus} (hf' : Transparent f') (hf : Transparent f) :
    Transparent fun b => f' (f b) := by
  intro b g hb hg
  obtain ⟨hcalled, heq⟩ := hf b g hb hg
  obtain ⟨hcalled', heq'⟩ := hf' (f b) g (hcalled.orderly hb) (hg.called hcalled)
  refine ⟨hcalled.trans hcalled', ?_⟩
  dsimp only
  rw [heq, heq']

theorem id : Transparent fun b => b := fun b _ _ _ => ⟨Called.refl b, rfl⟩

theorem foldl {ι : Type} {step : Bus → ι → Bus} (xs : List ι)
    (hstep : ∀ x ∈ xs, Transparent fun b => step b x) : Transparent fun b => xs.foldl step b := by
  induction xs with
  | nil => exact Transparent.id
  | cons x xs ih =>
      exact (ih fun y hy => hstep y (List.mem_cons_of_mem x hy)).comp (hstep x List.mem_cons_self)

/-- Work may depend on what holding does not change. -/
theorem of_view {α : Type} {f : α → Bus → Bus} (view : Bus → α)
    (hview : ∀ b g, view (b.gripped g) = view b) (hf : ∀ a, Transparent (f a)) :
    Transparent fun b => f (view b) b := by
  intro b g hb hg
  obtain ⟨hcalled, heq⟩ := hf (view b) b g hb hg
  refine ⟨hcalled, ?_⟩
  dsimp only
  rw [hview, heq]

/-- Transports are held one after the other and let go of in between. -/
theorem foldl_release {f : TransportId → Bus → Bus} (hf : ∀ t, Transparent (f t)) {b : Bus}
    (hb : b.Orderly) {ts : List TransportId} (hts : ∀ t ∈ ts, b.isLiveServer t = true) :
    ts.foldl (fun b t => (f t b).releaseServer t) (b.gripped (Grip.nothing.onServers ts)) =
      ts.foldl (fun b t => f t b) b := by
  induction ts generalizing b with
  | nil => exact gripped_nothing b
  | cons t ts ih =>
      have hfits := (Grip.fits_nothing b).onServers hts
      obtain ⟨hcalled, heq⟩ := hf t b _ hb hfits
      have hb' := hcalled.orderly hb
      rw [List.foldl_cons, List.foldl_cons, heq, Grip.onServers_cons, releaseServer_gripped hb']
      exact ih hb' fun u hu => by rw [hcalled.isLiveServer, hts u (List.mem_cons_of_mem t hu)]

end Transparent

variable (h : Host)

theorem callAdd_gripped {b : Bus} {g : Grip} (hb : b.Orderly) (hg : g.Fits b) (t : TransportId)
    (n : NodeId) (k : String) :
    (b.gripped g).callAdd h t n k = ((b.callAdd h t n k).1, (b.callAdd h t n k).2.gripped g) := by
  have ht' : (b.gripped g).transport? t = b.transport? t := transport?_gripped b g t
  cases ht : b.transport? t with
  | none => rw [callAdd_of_none h (ht'.trans ht), callAdd_of_none h ht]
  | some s =>
      cases s with
      | recorder r =>
          rw [callAdd_recorder (hb.gripped g) h (ht'.trans ht), callAdd_recorder hb h ht,
            addressText_gripped, setRecorder, adjustServer_gripped]
          rfl
      | loopback l =>
          have hnode : ((b.gripped g).node? n).map (fun _ => n) = (b.node? n).map fun _ => n := by
            rw [node?, get?_gripped, Option.map_map]
            rfl
          simp only [callAdd, ht'.trans ht, ht, addressText_gripped, isLiveNode_gripped hg, hnode]
          cases Address.parse (b.addressText n t) with
          | error e => rfl
          | ok a =>
              simp only
              cases l.register b.isLiveNode a ((b.node? n).map fun _ => n) k with
              | error e => rfl
              | ok l' => simp only [setLoopback, adjustServer_gripped]

theorem transparent_callAdd (t : TransportId) (n : NodeId) (k : String) :
    Transparent fun b => (b.callAdd h t n k).2 :=
  fun _ _ hb hg => ⟨called_callAdd hb h t n k, congrArg Prod.snd (callAdd_gripped h hb hg t n k)⟩

theorem transparent_dropAt (t : TransportId) (text k : String) :
    Transparent fun b => b.dropAt h t text k := by
  intro b g hb _
  refine ⟨(withdraws_dropAt hb h t text k).called, ?_⟩
  dsimp only
  have ht' : (b.gripped g).transport? t = b.transport? t := transport?_gripped b g t
  cases ht : b.transport? t with
  | none => rw [dropAt_of_none h (ht'.trans ht), dropAt_of_none h ht]
  | some s =>
      cases s with
      | recorder r =>
          rw [dropAt_recorder (hb.gripped g) h (ht'.trans ht), dropAt_recorder hb h ht,
            setRecorder, adjustServer_gripped]
          rfl
      | loopback l =>
          simp only [dropAt, callDrop, ht'.trans ht, ht]
          cases Address.parse text with
          | error e => rfl
          | ok a => simp only [setLoopback, adjustServer_gripped]

theorem transparent_callManage (t : TransportId) (n : NodeId) (object : Option ObjectId) :
    Transparent fun b => b.callManage h t n object := by
  intro b g hb _
  refine ⟨called_callManage hb h t n object, ?_⟩
  dsimp only
  have ht' : (b.gripped g).transport? t = b.transport? t := transport?_gripped b g t
  cases ht : b.transport? t with
  | none => rw [callManage_of_none h (ht'.trans ht), callManage_of_none h ht]
  | some s =>
      cases s with
      | recorder r =>
          rw [callManage_recorder (hb.gripped g) h (ht'.trans ht), callManage_recorder hb h ht,
            setRecorder, addressText_gripped, adjustServer_gripped]
          simp only [isLiveObject_gripped]
          rfl
      | loopback l =>
          simp only [callManage, ht'.trans ht, ht, addressText_gripped]
          cases Address.parse (b.addressText n t) with
          | error e => rfl
          | ok a => simp only [setLoopback, adjustServer_gripped]

theorem transparent_dropOf (n : NodeId) (name : String) (t : TransportId) :
    Transparent fun b => b.dropOf h n name t :=
  Transparent.of_view (f := fun text b => b.dropAt h t text name) (fun b => b.addressText n t)
    (fun b g => addressText_gripped b g n t) fun text => transparent_dropAt h t text name

theorem transparent_leave (n : NodeId) (names : List String) (managing : Bool) (t : TransportId) :
    Transparent fun b => b.leave h n names managing t := by
  have hdrop : Transparent fun b =>
      names.foldl (fun c name => c.dropAt h t (b.addressText n t) name) b :=
    Transparent.of_view
      (f := fun text b => names.foldl (fun c name => c.dropAt h t text name) b)
      (fun b => b.addressText n t) (fun b g => addressText_gripped b g n t)
      fun text => Transparent.foldl names fun name _ => transparent_dropAt h t text name
  cases managing with
  | false => simpa only [leave, Bool.false_eq_true, if_false] using hdrop
  | true => simpa only [leave, if_true] using (transparent_callManage h t n none).comp hdrop

theorem transparent_withdraw (m : Relocation) : Transparent fun b => b.withdraw h m := by
  refine Transparent.foldl m.servers fun t _ => ?_
  have hdrop : Transparent fun b => m.interfaces.foldl
      (fun c i => c.dropAt h t (b.addressText m.node t) (c.nameOf i)) b :=
    Transparent.of_view
      (f := fun text b => m.interfaces.foldl (fun c i => c.dropAt h t text (c.nameOf i)) b)
      (fun b => b.addressText m.node t) (fun b g => addressText_gripped b g m.node t)
      fun text => Transparent.foldl m.interfaces fun i _ =>
        Transparent.of_view (f := fun name b => b.dropAt h t text name) (fun b => b.nameOf i)
          (fun b g => nameOf_gripped b g i) fun name => transparent_dropAt h t text name
  by_cases hm : m.managing.isSome = true
  · simpa only [withdrawOn, hm, if_true] using (transparent_callManage h t m.node none).comp hdrop
  · simpa only [withdrawOn, hm, Bool.false_eq_true, if_false] using hdrop

theorem transparent_restore (m : Relocation) : Transparent fun b => b.restore h m := by
  refine Transparent.foldl m.servers fun t _ => ?_
  have hadd : Transparent fun b => m.interfaces.foldl
      (fun c i => (c.callAdd h t m.node (c.nameOf i)).2) b :=
    Transparent.foldl m.interfaces fun i _ =>
      Transparent.of_view (f := fun name b => (b.callAdd h t m.node name).2) (fun b => b.nameOf i)
        (fun b g => nameOf_gripped b g i) fun name => transparent_callAdd h t m.node name
  by_cases hm : m.managing.isSome = true
  · simpa only [restoreOn, hm, if_true] using
      (transparent_callManage h t m.node m.managing).comp hadd
  · simpa only [restoreOn, hm, Bool.false_eq_true, if_false] using hadd

/-! ## Registering several things -/

theorem called_foldl_dropOf {b : Bus} (hb : b.Orderly) (n : NodeId) (name : String)
    (ts : List TransportId) : b.Called (ts.foldl (fun b t => b.dropOf h n name t) b) :=
  (withdraws_dropOf hb h n name ts).called

theorem foldl_dropOf_gripped {b : Bus} {g : Grip} (hb : b.Orderly) (hg : g.Fits b) (n : NodeId)
    (name : String) (ts : List TransportId) :
    ts.foldl (fun b t => b.dropOf h n name t) (b.gripped g) =
      (ts.foldl (fun b t => b.dropOf h n name t) b).gripped g :=
  (Transparent.foldl ts (fun t _ => transparent_dropOf h n name t) b g hb hg).2

theorem called_registerOnAll {b : Bus} (hb : b.Orderly) (n : NodeId) (name : String)
    (done ts : List TransportId) : b.Called (b.registerOnAll h n name done ts).2 := by
  induction ts generalizing b done with
  | nil => exact Called.refl b
  | cons t ts ih =>
      have hcalled := called_callAdd hb h t n name
      have hb' := hcalled.orderly hb
      unfold registerOnAll
      cases hres : b.callAdd h t n name with
      | mk result b' =>
          rw [hres] at hcalled hb'
          cases result with
          | ok u => exact hcalled.trans (ih hb' (t :: done))
          | error e => exact hcalled.trans (called_foldl_dropOf h hb' n name done)

theorem registerOnAll_gripped {b : Bus} {g : Grip} (hb : b.Orderly) (hg : g.Fits b) (n : NodeId)
    (name : String) (done ts : List TransportId) :
    (b.gripped g).registerOnAll h n name done ts =
      ((b.registerOnAll h n name done ts).1, (b.registerOnAll h n name done ts).2.gripped g) := by
  induction ts generalizing b done with
  | nil => rfl
  | cons t ts ih =>
      have hcalled := called_callAdd hb h t n name
      unfold registerOnAll
      rw [callAdd_gripped h hb hg]
      cases hres : b.callAdd h t n name with
      | mk result b' =>
          rw [hres] at hcalled
          have hb' := hcalled.orderly hb
          have hg' := hg.called hcalled
          cases result with
          | ok u => exact ih hb' hg' (t :: done)
          | error e => exact congrArg (Prod.mk _) (foldl_dropOf_gripped h hb' hg' n name done)

theorem called_registerAllOn {b : Bus} (hb : b.Orderly) (n : NodeId) (t : TransportId)
    (done is : List InterfaceId) : b.Called (b.registerAllOn h n t done is).2 := by
  induction is generalizing b done with
  | nil => exact Called.refl b
  | cons i is ih =>
      have hcalled := called_callAdd hb h t n (b.nameOf i)
      have hb' := hcalled.orderly hb
      unfold registerAllOn
      cases hres : b.callAdd h t n (b.nameOf i) with
      | mk result b' =>
          rw [hres] at hcalled hb'
          cases result with
          | ok u => exact hcalled.trans (ih hb' (i :: done))
          | error e =>
              refine hcalled.trans (Withdraws.foldl hb' done
                (S := fun i t' a k => t' = t ∧ readAddress (b'.addressText n t) = some a ∧
                  k = b'.nameOf i) (C := fun _ _ _ => False) fun j _ c hc hc' => ?_).called
              rw [← hc.nameOf]
              exact withdraws_dropAt hc' h t _ _

theorem registerAllOn_gripped {b : Bus} {g : Grip} (hb : b.Orderly) (hg : g.Fits b) (n : NodeId)
    (t : TransportId) (done is : List InterfaceId) :
    (b.gripped g).registerAllOn h n t done is =
      ((b.registerAllOn h n t done is).1, (b.registerAllOn h n t done is).2.gripped g) := by
  induction is generalizing b done with
  | nil => rfl
  | cons i is ih =>
      have hcalled := called_callAdd hb h t n (b.nameOf i)
      unfold registerAllOn
      rw [nameOf_gripped, callAdd_gripped h hb hg]
      cases hres : b.callAdd h t n (b.nameOf i) with
      | mk result b' =>
          rw [hres] at hcalled
          have hb' := hcalled.orderly hb
          have hg' := hg.called hcalled
          cases result with
          | ok u => exact ih hb' hg' (i :: done)
          | error e =>
              have hundo := Transparent.foldl done fun i _ =>
                Transparent.of_view (f := fun name b => b.dropAt h t (b'.addressText n t) name)
                  (fun b => b.nameOf i) (fun b g => nameOf_gripped b g i)
                  fun name => transparent_dropAt h t (b'.addressText n t) name
              simp only [addressText_gripped]
              exact congrArg (Prod.mk _) (hundo b' g hb' hg').2

/-! ## The operations -/

theorem live_of_mem_transportsOf {b : Bus} {x : Node} {t : TransportId}
    (ht : t ∈ b.transportsOf x) : b.isLiveServer t = true := (List.mem_filter.1 ht).2

theorem live_of_mem_instancesOf {b : Bus} {x : Node} {i : InterfaceId}
    (hi : i ∈ b.instancesOf x) : b.isLiveInterface i = true := (List.mem_filter.1 hi).2

theorem holdServers_eq {b : Bus} (hb : b.Orderly) (ts : List TransportId) :
    b.holdServers ts = b.gripped (Grip.nothing.onServers ts) := by
  conv_lhs => rw [← gripped_nothing b]
  rw [holdServers_gripped hb]

theorem holdInterfaces_eq {b : Bus} (hb : b.Orderly) (is : List InterfaceId) :
    b.holdInterfaces is = b.gripped (Grip.nothing.onInterfaces is) := by
  conv_lhs => rw [← gripped_nothing b]
  rw [holdInterfaces_gripped hb]

section Operations

variable {b : Bus} (hb : b.Orderly)

include hb

theorem orderly_clearName (n : NodeId) (name : String) (ts : List TransportId) :
    (b.clearName h n name ts).Orderly :=
  ((called_foldl_dropOf h hb n name ts).orderly hb).adjustNode n _

theorem clearName_gripped {g : Grip} (hg : g.Fits b) (n : NodeId) (name : String)
    (ts : List TransportId) :
    (b.gripped g).clearName h n name ts = (b.clearName h n name ts).gripped g := by
  simp only [clearName, foldl_dropOf_gripped h hb hg]
  exact adjustNode_gripped _ g (fun _ _ => rfl) n

theorem fits_clearName {g : Grip} (hg : g.Fits b) (n : NodeId) (name : String)
    (ts : List TransportId) : g.Fits (b.clearName h n name ts) :=
  (hg.called (called_foldl_dropOf h hb n name ts)).adjustNode (fun _ _ => rfl) n

theorem enroll_gripped {g : Grip} (hg : g.Fits b) (i : InterfaceId) (n : NodeId) (name : String)
    (ts : List TransportId) :
    (b.gripped g).enroll h i n name ts =
      ((b.enroll h i n name ts).1, (b.enroll h i n name ts).2.gripped g) := by
  unfold enroll
  rw [registerOnAll_gripped h hb hg]
  cases b.registerOnAll h n name [] ts with
  | mk result b' =>
      cases result with
      | error e => rfl
      | ok u =>
          have hput : IgnoresHandles fun node : Node =>
              { node with interfaces := Entries.put name i node.interfaces } := fun _ _ => rfl
          simp only [adjustNode_gripped _ g hput, setOwner_gripped]

theorem orderly_enroll (i : InterfaceId) (n : NodeId) (name : String) (ts : List TransportId) :
    (b.enroll h i n name ts).2.Orderly := by
  have hcalled := called_registerOnAll h hb n name [] ts
  have hb' := hcalled.orderly hb
  unfold enroll
  cases hres : b.registerOnAll h n name [] ts with
  | mk result b' =>
      rw [hres] at hb'
      cases result with
      | error e => exact hb'
      | ok u => exact (hb'.adjustNode n _).setOwner i (some n)

/-- **Attaching**, where nothing stands in the way. -/
theorem attach_eq {i : InterfaceId} {x : Instance} {n : NodeId} {node : Node}
    (hi : b.interface? i = some x) (ho : x.owner = none) (hn : b.node? n = some node)
    (hfree : (Entries.get? x.interface.name node.interfaces).any b.isLiveInterface = false) :
    b.attach h i n =
      (let name := x.interface.name
        let servers := b.transportsOf node
        let b := if (Entries.get? name node.interfaces).isSome then b.clearName h n name servers
          else b
        ((b.enroll h i n name servers).1.mapError .error, (b.enroll h i n name servers).2)) := by
  have hfits : (Grip.nothing.onServers (b.transportsOf node)).Fits b :=
    (Grip.fits_nothing b).onServers fun t ht => live_of_mem_transportsOf ht
  simp only [attach, hi, ho, hn, hfree, holdServers_eq hb, Option.isSome_none,
    Bool.false_eq_true, if_false]
  split
  · rw [clearName_gripped h hb hfits, enroll_gripped h (orderly_clearName h hb _ _ _)
      (fits_clearName h hb hfits _ _ _)]
    simp only [releaseServers_gripped (orderly_enroll h (orderly_clearName h hb _ _ _) _ _ _ _),
      gripped_nothing]
  · rw [enroll_gripped h hb hfits]
    simp only [releaseServers_gripped (orderly_enroll h hb _ _ _ _), gripped_nothing]

/-- **Dropping a name** that the node has. -/
theorem detach_eq {n : NodeId} {node : Node} {name : String} {i : InterfaceId}
    (hn : b.node? n = some node) (hi : Entries.get? name node.interfaces = some i) :
    b.detach h n name =
      (true,
        let b := b.adjustNode n (Node.dropName name)
        let b := (b.transportsOf node).foldl (fun b t => b.dropOf h n name t) b
        if b.isLiveInterface i then b.setOwner i none else b) := by
  have hb' : (b.adjustNode n (Node.dropName name)).Orderly := hb.adjustNode n _
  simp only [detach, hn, hi]
  rw [Node.eq_dropName]
  have hservers : (b.adjustNode n (Node.dropName name)).transportsOf node =
        b.transportsOf node := rfl
  rw [hservers]
  generalize b.adjustNode n (Node.dropName name) = c at hb' hservers
  have hfits : (Grip.nothing.onServers (b.transportsOf node)).Fits c :=
    (Grip.fits_nothing c).onServers fun t ht => live_of_mem_transportsOf (hservers ▸ ht)
  rw [holdServers_eq hb', foldl_dropOf_gripped h hb' hfits]
  have hcalled := called_foldl_dropOf h hb' n name (b.transportsOf node)
  rw [isLiveInterface_gripped (hfits.called hcalled)]
  split
  · rw [setOwner_gripped, releaseServers_gripped ((hcalled.orderly hb').setOwner i none),
      gripped_nothing]
  · rw [releaseServers_gripped (hcalled.orderly hb'), gripped_nothing]

/-- **Taking a value off its node**, where it clears its name there. -/
theorem release_eq {i j : InterfaceId} {x : Instance} {n : NodeId} {node : Node}
    (hi : b.interface? i = some x) (ho : x.owner = some n) (hn : b.node? n = some node)
    (hj : Entries.get? x.interface.name node.interfaces = some j)
    (hclears : (b.setOwner i none).clearsName i j = true) :
    b.release h i =
      (let name := x.interface.name
        let b := (b.setOwner i none).adjustNode n (Node.dropName name)
        (b.transportsOf node).foldl (fun b t => b.dropOf h n name t) b) := by
  have hn' : (b.setOwner i none).node? n = some node := hn
  simp only [release, hi, ho, hn', hj, hclears, if_true]
  rw [Node.eq_dropName]
  have hb' := (hb.setOwner i none).adjustNode n (Node.dropName x.interface.name)
  have hlive : ∀ t ∈ b.transportsOf node,
      ((b.setOwner i none).adjustNode n (Node.dropName x.interface.name)).isLiveServer t = true :=
    fun t ht => live_of_mem_transportsOf ht
  have hservers : (b.setOwner i none).transportsOf node = b.transportsOf node := rfl
  rw [hservers, holdServers_eq hb']
  exact Transparent.foldl_release (fun t => transparent_dropOf h n x.interface.name t) hb' hlive

/-- **Managing** an object, or none. -/
theorem manage_eq {n : NodeId} {node : Node} (hn : b.node? n = some node)
    (object : Option ObjectId) :
    b.manage h n object =
      (let b := b.adjustNode n (Node.manage object);
        (b.transportsOf node).foldl (fun b t => b.callManage h t n object) b) := by
  simp only [manage, hn]
  rw [Node.eq_manage]
  have hb' := hb.adjustNode n (Node.manage object)
  have hlive : ∀ t ∈ b.transportsOf node,
      (b.adjustNode n (Node.manage object)).isLiveServer t = true :=
    fun t ht => live_of_mem_transportsOf ht
  rw [holdServers_eq hb']
  exact Transparent.foldl_release (fun t => transparent_callManage h t n object) hb' hlive

/-- **Binding** a node that is not bound yet. -/
theorem bind_eq {n : NodeId} {t : TransportId} {node : Node} (hn : b.node? n = some node)
    (ht : node.servers.contains t = false) :
    b.bind h n t =
      match b.registerAllOn h n t [] (b.instancesOf node) with
      | (.error e, b) => (.error e, b)
      | (.ok (), b) =>
          let b := if node.managing.isSome then b.callManage h t n node.managing else b
          (.ok (), b.adjustNode n (Node.bindTo t)) := by
  have hlive : ∀ i ∈ b.instancesOf node, b.isLiveInterface i = true :=
    fun i hi => live_of_mem_instancesOf hi
  have hfits : (Grip.nothing.onInterfaces (b.instancesOf node)).Fits b :=
    (Grip.fits_nothing b).onInterfaces hlive
  simp only [bind, hn, ht, Bool.false_eq_true, if_false]
  rw [holdInterfaces_eq hb, registerAllOn_gripped h hb hfits]
  have hcalled := called_registerAllOn h hb n t [] (b.instancesOf node)
  cases hres : b.registerAllOn h n t [] (b.instancesOf node) with
  | mk result b' =>
      rw [hres] at hcalled
      have hb' := hcalled.orderly hb
      have hlive' : ∀ i ∈ b.instancesOf node, b'.isLiveInterface i = true :=
        fun i hi => by rw [hcalled.isLiveInterface, hlive i hi]
      have hfits' := hfits.called hcalled
      cases result with
      | error e =>
          simp only
          rw [releaseInterfaces_gripped hb' _ h (Grip.fits_nothing b') hlive', gripped_nothing]
      | ok u =>
          -- what is let go of at the end is as live as before, also after the node was entered
          have hmanage : ∀ c : Bus, b'.Called c →
              ((c.gripped (Grip.nothing.onInterfaces (b.instancesOf node))).adjustNode n
                  (Node.bindTo t)).releaseInterfaces h (b.instancesOf node) =
                c.adjustNode n (Node.bindTo t) := by
            intro c hc
            have hlivec : ∀ i ∈ b.instancesOf node,
                (c.adjustNode n (Node.bindTo t)).isLiveInterface i = true :=
              fun i hi => (congrFun hc.isLiveInterface i).trans (hlive' i hi)
            rw [adjustNode_gripped c _ (fun _ _ => rfl),
              releaseInterfaces_gripped ((hc.orderly hb').adjustNode n _) _ h
                (Grip.fits_nothing _) hlivec, gripped_nothing]
          simp only
          split
          · have htrans := transparent_callManage h t n node.managing b' _ hb' hfits'
            simp only at htrans
            rw [Node.eq_bindTo, htrans.2, hmanage _ htrans.1]
          · rw [Node.eq_bindTo, hmanage _ (Called.refl b')]

end Operations

end Bus

end ObjectBus
