import ObjectBus.Bus.Members

/-!
# Remote requests — through a loopback transport

A remote caller knows an address, an interface name and a member name. The transport must run; the
address must be registered, for a node that is live; the interface must be registered there and
attached to that node; and then the member must exist. What goes wrong is told as a fault, and the
first of these that goes wrong is the one that is told.

Arguments and written values are imported before the member sees them, and results and read values
are exported before the caller does. The interface value is held while a function runs or a property
is written, because either may run commands.
-/

set_option autoImplicit false

namespace ObjectBus

/-- A failure of the bus as a remote caller is told of it. -/
def Failure.toRemote : Failure BusError → Failure Fault
  | .error e => .error e.toFault
  | .panic text => .panic text

namespace Bus

/-- **The interface value that a request is for.** -/
def resolve (b : Bus) (l : Loopback) (address interface : String) :
    Except Fault (InterfaceId × Interface) :=
  match l.checkRunning with
  | .error e => .error e
  | .ok () =>
      match l.resolve address interface with
      | .error e => .error e
      | .ok n =>
          match (n.filter b.isLiveNode).bind b.node? with
          | none => .error (.unknownObject address)
          | some node =>
              match (Entries.get? interface node.interfaces).filter b.isLiveInterface with
              | none => .error (.unknownInterface interface)
              | some i =>
                  match b.interface? i with
                  | none => .error (.unknownInterface interface)
                  | some x => .ok (i, x.interface)

/-- Exports results through a transport as it is now. -/
def exportResults (b : Bus) (t : TransportId) (vs : List Value) : Except Fault (List Value) :=
  match b.loopback? t with
  | none => .ok vs
  | some l => l.exportValues vs

/-- Runs a callable on imported arguments and exports its results; the interface value is held
meanwhile. -/
def serve (h : Host) (t : TransportId) (c : Callable) (i : InterfaceId) (values : List Value)
    (b : Bus) : Except (Failure Fault) (List Value) × Bus :=
  let (result, b) := c.invoke values (b.holdInterface i)
  let answer :=
    match result with
    | .error e => .error e.toRemote
    | .ok vs => (b.exportResults t vs).mapError .error
  (answer, b.releaseInterface h i)

/-- **Calls a function from afar**, given the callable behind every function. -/
def remoteCallOf (callable : Function → Callable) (h : Host) (t : TransportId) (l : Loopback)
    (address interface name : String) (args : List Value) (b : Bus) :
    Except (Failure Fault) (List Value) × Bus :=
  match b.resolve l address interface with
  | .error e => (.error (.error e), b)
  | .ok (i, x) =>
      match x.function name with
      | .error e => (.error (.error e.toFault), b)
      | .ok f =>
          match l.importValues b.isLiveObject args (callable f).argTypes with
          | .error e => (.error (.error e), b)
          | .ok args => b.serve h t (callable f) i args

/-- **Calls a function from afar.** -/
def remoteCall (h : Host) (t : TransportId) (l : Loopback)
    (address interface name : String) (args : List Value) (b : Bus) :
    Except (Failure Fault) (List Value) × Bus :=
  b.remoteCallOf (Function.callable h) h t l address interface name args

/-- **Reads a property from afar.** -/
def remoteGet (b : Bus) (l : Loopback) (address interface name : String) :
    Except Fault Value :=
  match b.resolve l address interface with
  | .error e => .error e
  | .ok (_, x) =>
      match x.property name with
      | .error e => .error e.toFault
      | .ok p =>
          match b.readProperty p with
          | .error e => .error e.toFault
          | .ok v => l.exportValue v

/-- **Writes a property from afar** and tells whether the value was applied. -/
def remoteSet (h : Host) (l : Loopback) (address interface name : String) (v : Value)
    (b : Bus) : Except (Failure Fault) Bool × Bus :=
  match b.resolve l address interface with
  | .error e => (.error (.error e), b)
  | .ok (i, x) =>
      match x.property name with
      | .error e => (.error (.error e.toFault), b)
      | .ok p =>
          match l.importValue b.isLiveObject v p.shape with
          | .error e => (.error (.error e), b)
          | .ok v =>
              let b := (b.holdInterface i).takeInHand [v]
              let (result, b) := b.writeProperty h p v
              (result.mapError Failure.toRemote, (b.letGo 1).releaseInterface h i)

/-- Reads and exports the readable ones of a list of properties, one after the other. -/
def readAll (b : Bus) (l : Loopback) :
    List (String × Property) → Except Fault (List (String × Value))
  | [] => .ok []
  | (name, p) :: ps =>
      if p.permissions.readable then
        match b.readProperty p with
        | .error e => .error e.toFault
        | .ok v =>
            match l.exportValue v with
            | .error e => .error e
            | .ok v => (b.readAll l ps).map ((name, v) :: ·)
      else b.readAll l ps

/-- **Reads every readable property of an interface from afar.** -/
def remoteGetAll (b : Bus) (l : Loopback) (address interface : String) :
    Except Fault (List (String × Value)) :=
  match b.resolve l address interface with
  | .error e => .error e
  | .ok (_, x) => b.readAll l x.properties

/-- **Describes what an address offers.** There must be something registered there or below; the
transport need not run. -/
def introspect (b : Bus) (l : Loopback) (address : String) : Except Fault Address.Outline :=
  match Address.ofRequest address with
  | .error e => .error e
  | .ok a =>
      let registration := l.registry.get? a
      if registration.isNone && !l.registry.hasBranch a then .error (.unknownObject address)
      else
        let node := ((registration.bind (·.node)).filter b.isLiveNode).bind b.node?
        let interfaces :=
          match node with
          | none => []
          | some node =>
              (b.instancesOf node).filterMap fun i =>
                (b.interface? i).map fun x => x.interface.describe
        .ok { address := a.render, interfaces, children := l.registry.branchNames a }

end Bus

end ObjectBus
