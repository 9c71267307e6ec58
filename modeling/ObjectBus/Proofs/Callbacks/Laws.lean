import ObjectBus.Proofs.Interface.Order
import ObjectBus.Session.Interfaces
import ObjectBus.Session.Nodes

/-!
# Laws of what happens, while transports call back

A law relates a bus to a later one: so much is true then, if so much was true before. Nearly all that
an operation does is one step after the other, and most of its steps have nothing to do with what a
law is about. So it is said here once what a law has to be about (`CallLaw`, `TableLaw`, `CommandLaw`),
and that it holds from the start of an operation to its end then follows from the way the operation is
put together.

Calling a transport takes no more than `CallLaw`: nothing happens to nodes and values but what the
commands of a hook do. A law that holds for each of the two changes that attaching is made of, at the
node and at the value, holds for attaching too (`TableLaw`).
-/

set_option autoImplicit false

namespace ObjectBus

/-- **A law that calls obey**: it holds where no node, no value and no name of a node changes, and from
before to after the commands of a hook. -/
structure CallLaw (h : Host) where
  Holds : Bus → Bus → Prop
  refl : ∀ b, Holds b b
  trans : ∀ {b c d}, Holds b c → Holds c d → Holds b d
  aside : ∀ {b b' : Bus}, b'.forest = b.forest → b'.interfaces = b.interfaces →
    b'.desk.nodes = b.desk.nodes → b.next ≤ b'.next → Holds b b'
  perform : ∀ commands b, Holds b (h.perform commands b)

namespace CallLaw

variable {h : Host} {L : CallLaw h}

theorem Holds.trans {b c d : Bus} (hbc : L.Holds b c) (hcd : L.Holds c d) : L.Holds b d :=
  L.trans hbc hcd

/-- One step after the other. -/
theorem foldl {ι : Type} {f : Bus → ι → Bus} (hf : ∀ b x, L.Holds b (f b x)) (xs : List ι)
    (b : Bus) : L.Holds b (xs.foldl f b) := by
  induction xs generalizing b with
  | nil => exact L.refl b
  | cons x xs ih => exact (hf b x).trans (ih (f b x))

variable (L) (b : Bus)

/-! ## Changes aside -/

theorem writeTrace (entry : TraceEntry) : L.Holds b (b.writeTrace entry) :=
  L.aside rfl rfl rfl (Nat.le_refl _)

theorem writeLog (entry : LogEntry) : L.Holds b (b.writeLog entry) :=
  L.aside rfl rfl rfl (Nat.le_refl _)

/-- What is on the desk changes, but for the names of nodes. -/
theorem desk {desk : Desk} (hnodes : desk.nodes = b.desk.nodes) : L.Holds b { b with desk } :=
  L.aside rfl rfl hnodes (Nat.le_refl _)

theorem setRecorder (t : TransportId) (r : Recorder) : L.Holds b (b.setRecorder t r) :=
  L.aside rfl rfl rfl (Nat.le_refl _)

theorem setLoopback (t : TransportId) (l : Loopback) : L.Holds b (b.setLoopback t l) :=
  L.aside rfl rfl rfl (Nat.le_refl _)

theorem holdServer (t : TransportId) : L.Holds b (b.holdServer t) :=
  L.aside rfl rfl rfl (Nat.le_refl _)

theorem releaseServer (t : TransportId) : L.Holds b (b.releaseServer t) :=
  L.aside rfl rfl rfl (Nat.le_refl _)

theorem holdServers (ts : List TransportId) : L.Holds b (b.holdServers ts) :=
  foldl (fun c t => L.holdServer c t) ts b

theorem releaseServers (ts : List TransportId) : L.Holds b (b.releaseServers ts) :=
  foldl (fun c t => L.releaseServer c t) ts b

/-! ## Calls -/

theorem runHook (t : TransportId) (on : CallKind) (interface : Option String) :
    L.Holds b (b.runHook h t on interface) := by
  unfold Bus.runHook
  split
  · exact L.refl b
  · split
    · exact L.refl b
    · exact (L.setRecorder b t _).trans (L.perform _ _)

/-- A recorder writes a call down, and runs a hook. -/
theorem record (t : TransportId) (r : Recorder) (entry : TraceEntry) (on : CallKind)
    (interface : Option String) :
    L.Holds b (((b.setRecorder t r).writeTrace entry).runHook h t on interface) :=
  ((L.setRecorder b t r).trans (L.writeTrace _ entry)).trans (L.runHook _ t on interface)

theorem callAdd (t : TransportId) (n : NodeId) (name : String) :
    L.Holds b (b.callAdd h t n name).2 := by
  unfold Bus.callAdd
  split
  · exact L.refl b
  · dsimp only
    split
    · exact L.record b t _ _ _ _
    · exact (L.setRecorder b t _).trans (L.writeTrace _ _)
  · split
    · exact L.refl b
    · dsimp only
      split
      · exact L.refl b
      · exact L.setLoopback b t _

theorem callDrop (t : TransportId) (address name : String) :
    L.Holds b (b.callDrop h t address name).2 := by
  unfold Bus.callDrop
  split
  · exact L.refl b
  · exact L.record b t _ _ _ _
  · split
    · exact L.refl b
    · exact L.setLoopback b t _

theorem callEmit (t : TransportId) (address interface signal : String) (args : List Value)
    (argsType : Shape) : L.Holds b (b.callEmit h t address interface signal args argsType).2 := by
  unfold Bus.callEmit
  split
  · exact L.refl b
  · exact (L.writeTrace b _).trans (L.runHook _ t _ _)
  · split
    · exact L.refl b
    · exact L.setLoopback b t _

theorem callManage (t : TransportId) (n : NodeId) (object : Option ObjectId) :
    L.Holds b (b.callManage h t n object) := by
  unfold Bus.callManage
  split
  · exact L.refl b
  · exact L.record b t _ _ _ _
  · split
    · exact L.refl b
    · exact L.setLoopback b t _

theorem dropAt (t : TransportId) (address name : String) :
    L.Holds b (b.dropAt h t address name) := L.callDrop b t address name

theorem dropOf (n : NodeId) (name : String) (t : TransportId) :
    L.Holds b (b.dropOf h n name t) := L.dropAt b t _ name

theorem foldl_dropOf (n : NodeId) (name : String) (ts : List TransportId) :
    L.Holds b (ts.foldl (fun b t => b.dropOf h n name t) b) :=
  foldl (fun c t => L.dropOf c n name t) ts b

/-! ## Calls for one name, for one transport, for one node -/

theorem registerOnAll (n : NodeId) (name : String) (ts done : List TransportId) (b : Bus) :
    L.Holds b (b.registerOnAll h n name done ts).2 := by
  induction ts generalizing done b with
  | nil => exact L.refl b
  | cons t ts ih =>
      have hadd := L.callAdd b t n name
      unfold Bus.registerOnAll
      cases hres : b.callAdd h t n name with
      | mk result c =>
          rw [hres] at hadd
          cases result with
          | ok u => exact hadd.trans (ih (t :: done) c)
          | error e => exact hadd.trans (L.foldl_dropOf c n name done)

theorem registerAllOn (n : NodeId) (t : TransportId) (is done : List InterfaceId) (b : Bus) :
    L.Holds b (b.registerAllOn h n t done is).2 := by
  induction is generalizing done b with
  | nil => exact L.refl b
  | cons i is ih =>
      have hadd := L.callAdd b t n (b.nameOf i)
      unfold Bus.registerAllOn
      cases hres : b.callAdd h t n (b.nameOf i) with
      | mk result c =>
          rw [hres] at hadd
          cases result with
          | ok u => exact hadd.trans (ih (i :: done) c)
          | error e =>
              exact hadd.trans (foldl (fun d j => L.dropAt d t _ (d.nameOf j)) done c)

theorem withdraw (m : Bus.Relocation) : L.Holds b (b.withdraw h m) := by
  refine foldl (fun c t => ?_) m.servers b
  have hleft := foldl
    (fun d i => L.dropAt d t (c.addressText m.node t) (d.nameOf i)) m.interfaces c
  unfold Bus.withdrawOn
  dsimp only
  split
  · exact hleft.trans (L.callManage _ t m.node none)
  · exact hleft

theorem restore (m : Bus.Relocation) : L.Holds b (b.restore h m) := by
  refine foldl (fun c t => ?_) m.servers b
  have hcame := foldl (fun d i => L.callAdd d t m.node (d.nameOf i)) m.interfaces c
  unfold Bus.restoreOn
  dsimp only
  split
  · exact hcame.trans (L.callManage _ t m.node m.managing)
  · exact hcame

theorem leave (n : NodeId) (names : List String) (managing : Bool) (t : TransportId) :
    L.Holds b (b.leave h n names managing t) := by
  have hleft := foldl (fun c name => L.dropAt c t (b.addressText n t) name) names b
  unfold Bus.leave
  dsimp only
  split
  · exact hleft.trans (L.callManage _ t n none)
  · exact hleft

/-- A node leaves its transports. -/
theorem leaveAll (n : NodeId) (names : List String) (managing : Bool) (ts : List TransportId) :
    L.Holds b (ts.foldl (fun b t => b.leave h n names managing t) (b.holdServers ts)) :=
  (L.holdServers b ts).trans (foldl (fun c t => L.leave c n names managing t) ts _)

end CallLaw

/-! ## Attaching and detaching -/

/-- **A law that attaching obeys**: besides, it holds where the names of a node change, and where a value
comes to belong to another node, each by itself. -/
structure TableLaw (h : Host) extends CallLaw h where
  table : ∀ b n (table : Node → Entries String InterfaceId),
    Holds b (b.adjustNode n fun x => { x with interfaces := table x })
  owner : ∀ b i (owner : Option NodeId), Holds b (b.setOwner i owner)

namespace TableLaw

variable {h : Host} (L : TableLaw h) (b : Bus)

theorem enroll (i : InterfaceId) (n : NodeId) (name : String) (ts : List TransportId) :
    L.Holds b (b.enroll h i n name ts).2 := by
  have hreg := L.registerOnAll n name ts [] b
  unfold Bus.enroll
  cases hres : b.registerOnAll h n name [] ts with
  | mk result c =>
      rw [hres] at hreg
      cases result with
      | error e => exact hreg
      | ok u => exact (hreg.trans (L.table _ n _)).trans (L.owner _ i _)

theorem attach (i : InterfaceId) (n : NodeId) : L.Holds b (b.attach h i n).2 := by
  unfold Bus.attach
  split
  · exact L.refl b
  · next y hi =>
      dsimp only
      split
      · exact L.refl b
      · split
        · exact L.refl b
        · next node hn =>
            split
            · exact L.refl b
            · have hheld := L.holdServers b (b.transportsOf node)
              refine CallLaw.Holds.trans ?_ (L.releaseServers _ _)
              refine CallLaw.Holds.trans ?_ (L.enroll _ i n _ _)
              split
              · exact (hheld.trans (L.foldl_dropOf _ n _ _)).trans (L.table _ n _)
              · exact hheld

theorem detach (n : NodeId) (name : String) : L.Holds b (b.detach h n name).2 := by
  unfold Bus.detach
  split
  · exact L.refl b
  · next node hn =>
      split
      · exact L.refl b
      · next i hk =>
          refine CallLaw.Holds.trans ?_ (L.releaseServers _ _)
          have hcalled := ((L.table b n fun x => Entries.drop name x.interfaces).trans
            (L.holdServers _ (b.transportsOf node))).trans
              (L.foldl_dropOf _ n name (b.transportsOf node))
          split
          · exact hcalled.trans (L.owner _ i none)
          · exact hcalled

theorem release (i : InterfaceId) : L.Holds b (b.release h i) := by
  unfold Bus.release
  split
  · exact L.refl b
  · next y hi =>
      split
      · exact L.refl b
      · next n ho =>
          have hgiven := L.owner b i none
          dsimp only
          split
          · exact hgiven
          · next node hn =>
              split
              · exact hgiven
              · split
                · have hdropped := hgiven.trans
                    (L.table _ n fun x => Entries.drop y.interface.name x.interfaces)
                  refine CallLaw.Holds.trans (hdropped.trans
                    (L.holdServers _ ((b.setOwner i none).transportsOf node))) ?_
                  exact CallLaw.foldl (fun c t => (L.dropOf c n y.interface.name t).trans
                    (L.releaseServer _ t)) _ _
                · exact hgiven

end TableLaw

/-! ## Commands -/

/-- A change of the transports that a node is bound to, and of what it manages. -/
def Node.Minor (change : Node → Node) : Prop :=
  ∀ x, change x = { x with servers := (change x).servers, managing := (change x).managing }

/-- **A law that commands obey**: besides, it holds for what else can be done to a node, to a value and
to a name of a node. -/
structure CommandLaw (h : Host) extends CallLaw h where
  node : ∀ b n {change : Node → Node}, Node.Minor change → Holds b (b.adjustNode n change)
  /-- The handles of a value are counted anew. -/
  count : ∀ b i (count : Nat → Nat),
    Holds b (b.adjustInterface i fun y => { y with handles := count y.handles })
  /-- The properties of a value are edited. -/
  edit : ∀ {b i y}, b.interface? i = some y → ∀ properties,
    (y.interface.InOrder → Entries.Sorted properties) →
    Holds b (b.adjustInterface i fun y =>
      { y with interface := { y.interface with properties } })
  newValue : ∀ {b v}, (b.InOrder → v.interface.InOrder) → Holds b (b.newInstance v).2
  /-- A value is moved out of its handle. -/
  moveOut : ∀ {b i y}, b.interface? i = some y →
    Holds b ({ b with interfaces := Entries.drop i b.interfaces }.newInstance
      { y with isLoose := true }).2
  destroyInterface : ∀ i b, Holds b (h.destroyInterface i b)
  /-- A loose value is handed over and attached. -/
  attach : ∀ {b i y}, b.interface? i = some y → y.isLoose = true → ∀ n,
    Holds b ((b.adjustInterface i fun x => { x with isLoose := false }).attach h i n).2
  detach : ∀ b n name, Holds b (b.detach h n name).2
  /-- A node that has a name is held meanwhile. -/
  held : ∀ {b name n}, Entries.get? name b.desk.nodes = some n → ∀ {c},
    Holds (b.holdNode n) c → Holds b (c.releaseNode h n)
  /-- A node is planted, below one that has a name, and is given a name. -/
  plant : ∀ (b : Bus) id name parent servers,
    (∀ p, parent = some p → ∃ k, Entries.get? k b.desk.nodes = some p) →
    Holds b ({ b with forest := (b.forest.grow name parent servers).2 }.nameNode h id
      (b.forest.grow name parent servers).1)
  /-- A node is given another name. -/
  share : ∀ {b name n}, Entries.get? name b.desk.nodes = some n → ∀ id,
    Holds b ((b.holdNode n).nameNode h id n)
  /-- A node loses a name. -/
  unname : ∀ {b : Bus} {name n}, Entries.get? name b.desk.nodes = some n →
    Holds b ({ b with desk := { b.desk with nodes := Entries.drop name b.desk.nodes } }.releaseNode
      h n)

namespace CommandLaw

variable {h : Host} (L : CommandLaw h) (b : Bus)

theorem holdInterface (i : InterfaceId) : L.Holds b (b.holdInterface i) := L.count b i _

theorem holdInterfaces (is : List InterfaceId) : L.Holds b (b.holdInterfaces is) :=
  CallLaw.foldl (fun c i => L.holdInterface c i) is b

theorem releaseInterface (i : InterfaceId) : L.Holds b (b.releaseInterface h i) := by
  have hless : L.Holds b (b.adjustInterface i fun x => { x with handles := x.handles - 1 }) :=
    L.count b i (· - 1)
  unfold Bus.releaseInterface
  dsimp only
  split
  · exact hless
  · exact hless.trans (L.destroyInterface i _)

theorem releaseInterfaces (is : List InterfaceId) : L.Holds b (b.releaseInterfaces h is) :=
  CallLaw.foldl (fun c i => L.releaseInterface c i) is b

/-- What is registered for a node that is moved is held. -/
theorem holdAll (ts : List TransportId) (is : List InterfaceId) :
    L.Holds b ((b.holdServers ts).holdInterfaces is) :=
  (L.holdServers b ts).trans (L.holdInterfaces _ is)

/-- And it is let go. -/
theorem releaseAll (ts : List TransportId) (is : List InterfaceId) :
    L.Holds b ((b.releaseServers ts).releaseInterfaces h is) :=
  (L.releaseServers b ts).trans (L.releaseInterfaces _ is)

/-! ### Binding and managing -/

theorem bind (n : NodeId) (t : TransportId) : L.Holds b (b.bind h n t).2 := by
  unfold Bus.bind
  split
  · exact L.refl b
  · next node hn =>
      split
      · exact L.refl b
      · have hreg := (L.holdInterfaces b (b.instancesOf node)).trans
          (L.registerAllOn n t (b.instancesOf node) [] _)
        dsimp only
        cases hres : (b.holdInterfaces (b.instancesOf node)).registerAllOn h n t []
            (b.instancesOf node) with
        | mk result c =>
            rw [hres] at hreg
            cases result with
            | error e => exact hreg.trans (L.releaseInterfaces c _)
            | ok u =>
                refine (hreg.trans ?_).trans (L.releaseInterfaces _ _)
                refine CallLaw.Holds.trans ?_ (L.node _ n fun _ => rfl)
                split
                · exact L.callManage c t n node.managing
                · exact L.refl c

theorem unbind (n : NodeId) (t : TransportId) : L.Holds b (b.unbind h n t).2 := by
  unfold Bus.unbind
  split
  · exact L.refl b
  · next node hn =>
      split
      · exact L.refl b
      · have hunbound : L.Holds b (b.adjustNode n fun node =>
            { node with servers := node.servers.filter (· != t) }) := L.node b n fun _ => rfl
        have hleft := hunbound.trans (CallLaw.foldl (fun c name => L.dropAt c t
          (Bus.addressText (b.adjustNode n fun node =>
            { node with servers := node.servers.filter (· != t) }) n t) name)
            (Entries.keys node.interfaces) _)
        dsimp only
        split
        · exact hleft.trans (L.callManage _ t n none)
        · exact hleft

theorem manage (n : NodeId) (object : Option ObjectId) : L.Holds b (b.manage h n object) := by
  unfold Bus.manage
  split
  · exact L.refl b
  · next node hn =>
      have hset : L.Holds b (b.adjustNode n fun node => { node with managing := object }) :=
        L.node b n fun _ => rfl
      exact (hset.trans (L.holdServers _ _)).trans
        (CallLaw.foldl (f := fun c t => (c.callManage h t n object).releaseServer t)
          (fun c t => (L.callManage c t n object).trans (L.releaseServer _ t))
          (b.transportsOf node) _)

end CommandLaw

end ObjectBus
