import Mathlib.Data.List.Induction
import ObjectBus.Session.Run
import ObjectBus.Proofs.Bus.Destruction

/-!
# Runs

A run starts with the empty bus and does one `Operation` after the other: making, holding and
dropping nodes, interface values and transports, attaching and detaching, binding and unbinding,
managing, and moving a value out of its handle. In between, anything may happen that has nothing to
do with where things are registered (`Bus.Untouched`): properties are read and written, functions
are called, transports are started and stopped, recorders are told to refuse.

`Bus.Reaches allows b` says that a run leads to `b` in which every operation was allowed when it was
done, and `Bus.LeadsBy allows b b'` that such a run goes on from `b` to `b'`. Operations that make no
sense, such as dropping what is not held, do nothing.
-/

set_option autoImplicit false

namespace ObjectBus

/-- **What is done to the bus from outside.** -/
inductive Operation where
  | makeRoot (name : String)
  | makeChild (parent : NodeId) (name : String)
  | holdNode (n : NodeId)
  | dropNode (n : NodeId)
  | build (interface : Interface)
  | makeInterface (i : InterfaceId) (n : NodeId)
  | takeOut (i : InterfaceId)
  | holdInterface (i : InterfaceId)
  | dropInterface (i : InterfaceId)
  | detach (n : NodeId) (name : String)
  | bind (n : NodeId) (t : TransportId)
  | unbind (n : NodeId) (t : TransportId)
  | manage (n : NodeId) (object : Option ObjectId)
  | openLoopback (settings : Settings)
  | openRecorder (label root : String)
  | holdTransport (t : TransportId)
  | dropTransport (t : TransportId)

namespace Bus

/-- Whether an interface value is loose. -/
def isLooseInterface (b : Bus) (i : InterfaceId) : Bool :=
  match b.interface? i with
  | some x => x.isLoose
  | none => false

/-- **A node takes a loose interface value**; if it refuses, the value is destroyed. -/
def makeInterface (h : Host) (i : InterfaceId) (n : NodeId) (b : Bus) :
    Except (Failure BusError) Unit × Bus :=
  match (b.adjustInterface i fun x => { x with isLoose := false }).attach h i n with
  | (.ok (), b) => (.ok (), b)
  | (.error e, b) => (.error e, b.releaseInterface h i)

/-- A value that is moved out of its handle becomes another one. -/
def movedOut (b : Bus) (i : InterfaceId) (x : Instance) : Bus :=
  ({ b with interfaces := Entries.drop i b.interfaces }.newInstance { x with isLoose := true }).2

/-- The bus with another forest. -/
def withForest (b : Bus) (f : Forest) : Bus := { b with forest := f }

end Bus

/-- **One operation**, with hosts of a number of levels below it. -/
def Operation.apply (levels : Nat) : Operation → Bus → Bus
  | makeRoot name, b => b.withForest (b.forest.grow name none []).2
  | makeChild parent name, b =>
      match b.node? parent with
      | none => b
      | some x => b.withForest (b.forest.grow name (some parent) (b.transportsOf x)).2
  | holdNode n, b => b.holdNode n
  | dropNode n, b => if b.isLiveNode n then b.releaseNode (.ofLevels (levels + 1)) n else b
  | build interface, b => (b.newInstance { interface }).2
  | makeInterface i n, b =>
      if b.isLooseInterface i && b.isLiveNode n then
        (b.makeInterface (.ofLevels (levels + 1)) i n).2
      else b
  | takeOut i, b =>
      match b.interface? i with
      | none => b
      | some x => if x.isLoose || x.handles != 1 then b else b.movedOut i x
  | holdInterface i, b => if b.isLooseInterface i then b else b.holdInterface i
  | dropInterface i, b =>
      if b.isLiveInterface i then b.releaseInterface (.ofLevels (levels + 1)) i else b
  | detach n name, b => (b.detach (.ofLevels (levels + 1)) n name).2
  | bind n t, b => if b.isLiveServer t then (b.bind (.ofLevels (levels + 1)) n t).2 else b
  | unbind n t, b => if b.isLiveServer t then (b.unbind (.ofLevels (levels + 1)) n t).2 else b
  | manage n object, b => b.manage (.ofLevels (levels + 1)) n object
  | openLoopback settings, b =>
      match Loopback.make settings with
      | .error _ => b
      | .ok l => (b.newTransport (.loopback l)).2
  | openRecorder label root, b => (b.newTransport (.recorder { label, root })).2
  | holdTransport t, b => if b.isLiveServer t then b.holdServer t else b
  | dropTransport t, b => b.releaseServer t

attribute [simp] Operation.apply

/-! ## What happens elsewhere -/

/-- The same interface value, with its name and its place, whatever its members are. -/
def Instance.Alike (x y : Instance) : Prop :=
  y.interface.name = x.interface.name ∧ y.owner = x.owner ∧ y.handles = x.handles ∧
    y.isLoose = x.isLoose

/-- The same transport as far as registrations go. -/
def Transport.Unchanged : Transport → Transport → Prop
  | .recorder r, .recorder r' =>
      r'.root = r.root ∧ r'.hooks = r.hooks ∧ r'.registered = r.registered ∧
        r'.managing = r.managing
  | .loopback l, .loopback l' =>
      l'.root = l.root ∧ l'.registry = l.registry ∧ l'.managed = l.managed
  | _, _ => False

/-- The same transport with the same number of handles, as far as registrations go. -/
def Server.Unchanged (s s' : Server) : Prop :=
  s'.handles = s.handles ∧ s.transport.Unchanged s'.transport

/-- **Something happened elsewhere**: nodes, the places of interface values and registrations are
the same. -/
structure Bus.Untouched (b b' : Bus) : Prop where
  forest : b'.forest = b.forest
  values : ∀ i, Option.Rel Instance.Alike (b.interface? i) (b'.interface? i)
  servers : ∀ t, Option.Rel Server.Unchanged (Entries.get? t b.transports)
    (Entries.get? t b'.transports)
  sorted_values : Entries.Sorted b'.interfaces
  sorted_servers : Entries.Sorted b'.transports
  next : b.next ≤ b'.next

/-- **A run** of allowed operations leads to a bus. -/
inductive Bus.Reaches (levels : Nat) (allows : Bus → Operation → Prop) : Bus → Prop
  | empty : Reaches levels allows {}
  | step {b : Bus} (op : Operation) : Reaches levels allows b → allows b op →
      Reaches levels allows (op.apply levels b)
  | elsewhere {b b' : Bus} : Reaches levels allows b → b.Untouched b' → Reaches levels allows b'

/-- **Reachable buses**: any operation is allowed at any time. -/
def Bus.Reachable (levels : Nat) (b : Bus) : Prop := b.Reaches levels fun _ _ => True

/-- **A run goes on**: allowed operations lead from one bus to another. -/
inductive Bus.LeadsBy (levels : Nat) (allows : Bus → Operation → Prop) (b : Bus) : Bus → Prop
  | refl : LeadsBy levels allows b b
  | step {c : Bus} (op : Operation) : LeadsBy levels allows b c → allows c op →
      LeadsBy levels allows b (op.apply levels c)
  | elsewhere {c c' : Bus} : LeadsBy levels allows b c → c.Untouched c' →
      LeadsBy levels allows b c'

/-- The bus after some operations. -/
def Bus.after (levels : Nat) (ops : List Operation) : Bus :=
  ops.foldl (fun b op => op.apply levels b) {}

theorem Bus.after_concat (levels : Nat) (ops : List Operation) (op : Operation) :
    Bus.after levels (ops ++ [op]) = op.apply levels (Bus.after levels ops) := by
  rw [Bus.after, List.foldl_append]
  rfl

/-- Operations that are allowed after those before them may be done one after the other. -/
theorem Bus.reaches_after {levels : Nat} {allows : Bus → Operation → Prop} {ops : List Operation}
    (h : ∀ front op, front ++ [op] <+: ops → allows (Bus.after levels front) op) :
    (Bus.after levels ops).Reaches levels allows := by
  induction ops using List.reverseRecOn with
  | nil => exact Reaches.empty
  | append_singleton ops op ih =>
      rw [Bus.after_concat]
      refine Reaches.step op (ih fun front op' hfront => ?_) (h ops op (List.prefix_refl _))
      exact h front op' (hfront.trans (List.prefix_append ops [op]))

theorem Bus.Reaches.mono {levels : Nat} {allows allows' : Bus → Operation → Prop}
    (h : ∀ b op, allows b op → allows' b op) {b : Bus} (hb : b.Reaches levels allows) :
    b.Reaches levels allows' := by
  induction hb with
  | empty => exact Reaches.empty
  | step op _ hop ih => exact Reaches.step op ih (h _ op hop)
  | elsewhere _ hu ih => exact Reaches.elsewhere ih hu

theorem Bus.Reaches.reachable {levels : Nat} {allows : Bus → Operation → Prop} {b : Bus}
    (hb : b.Reaches levels allows) : b.Reachable levels := hb.mono fun _ _ _ => trivial

/-- What a run comes to is reachable, if it goes on from what is reachable. -/
theorem Bus.LeadsBy.reachable {levels : Nat} {allows : Bus → Operation → Prop} {b b' : Bus}
    (h : b.LeadsBy levels allows b') (hb : b.Reachable levels) : b'.Reachable levels := by
  induction h with
  | refl => exact hb
  | step op _ _ ih => exact Reaches.step op ih trivial
  | elsewhere _ hu ih => exact Reaches.elsewhere ih hu

end ObjectBus
