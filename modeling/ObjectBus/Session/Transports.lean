import ObjectBus.Bus.Calls
import ObjectBus.Bus.Remote
import ObjectBus.Session.Nodes

/-!
# Commands on transports, and through them
-/

set_option autoImplicit false

namespace ObjectBus.Bus

/-- Makes a recorder. -/
def makeRecorder (id root : String) (b : Bus) : Outcome × Bus :=
  let (t, b) := b.newTransport (.recorder { label := id, root })
  doneWith (b.nameServer id t)

/-- Makes a loopback transport, which runs unless it is to be stopped. -/
def makeLoopback (id name root : String) (stopped : Bool) (b : Bus) : Outcome × Bus :=
  match Loopback.make { name, root } with
  | .error e => (.failed (.config e), b)
  | .ok l =>
      let (t, b) := b.newTransport (.loopback { l with running := !stopped })
      doneWith (b.nameServer id t)

/-- Lets a transport go and tells whether the name stood for one. -/
def closeTransport (name : String) (b : Bus) : Outcome × Bus :=
  match Entries.get? name b.desk.transports with
  | none => (.done (.flag false), b)
  | some t =>
      let b := { b with desk := { b.desk with transports := Entries.drop name b.desk.transports } }
      (.done (.flag true), b.releaseServer t)

/-! ## Recorders -/

/-- Sets the names that a recorder refuses. -/
def refuse (transport : String) (names : List String) (b : Bus) : Outcome × Bus :=
  b.onRecorder transport fun t r => doneWith (b.setRecorder t { r with refusals := names })

/-- Tells a recorder to drop signals, or not to. -/
def failEmit (transport : String) (fail : Bool) (b : Bus) : Outcome × Bus :=
  b.onRecorder transport fun t r => doneWith (b.setRecorder t { r with dropsSignals := fail })

/-- Gives a recorder a hook. -/
def addHook (transport : String) (on : CallKind) (interface : Option String)
    (commands : List Command) (b : Bus) : Outcome × Bus :=
  b.onRecorder transport fun t r =>
    doneWith (b.setRecorder t { r with hooks := r.hooks ++ [{ on, interface, commands }] })

/-- The registrations of a recorder. -/
def registeredOn (transport : String) (b : Bus) : Outcome × Bus :=
  b.onRecorder transport fun _ r => (.done (.registrations r.registrations), b)

/-- The addresses where a recorder has a managed object. -/
def managedOn (transport : String) (b : Bus) : Outcome × Bus :=
  b.onRecorder transport fun _ r => (.done (.texts (Entries.keys r.managing)), b)

/-! ## The calls of a transport, made directly -/

/-- Registers an interface for a node. -/
def addDirectly (h : Host) (transport node iface : String) (b : Bus) : Outcome × Bus :=
  b.usingServer transport fun t b =>
    b.usingNode h node fun n b =>
      b.usingInterface h iface fun _ x b =>
        let (result, b) := b.callAdd h t n x.name
        outcomeOf result b

/-- Drops a registration. -/
def dropDirectly (h : Host) (transport address name : String) (b : Bus) : Outcome × Bus :=
  b.usingServer transport fun t b =>
    let (present, b) := b.callDrop h t address name
    (.done (.flag present), b)

/-- Sends a signal. -/
def emitDirectly (h : Host) (transport address interface signal : String) (args : List Literal)
    (argsType : Shape) (b : Bus) : Outcome × Bus :=
  b.usingServer transport fun t b =>
    let (args, b) := b.evaluateAll args
    let (result, b) := (b.takeInHand args).callEmit h t address interface signal args argsType
    outcomeOf result (b.letGo args.length)

/-! ## Loopback transports -/

/-- Starts or stops a loopback transport. -/
def setRunning (transport : String) (running : Bool) (b : Bus) : Outcome × Bus :=
  b.onLoopback transport fun t l => doneWith (b.setLoopback t { l with running })

/-- What is to be seen of a loopback transport. -/
def transportInfo (transport : String) (b : Bus) : Outcome × Bus :=
  b.onLoopback transport fun _ l => (.done (.transport l.name l.root l.running), b)

/-- The outcome of a remote request. -/
def remoteOutcome {α : Type} (result : Except (Failure Fault) α) (answer : α → Answer) (b : Bus) :
    Outcome × Bus :=
  match result with
  | .ok x => (.done (answer x), b)
  | .error (.error fault) => (.failed (.fault fault), b)
  | .error (.panic text) => (.failed (.panic text), b)

/-- Calls a function from afar. -/
def callFromAfar (h : Host) (transport address interface name : String) (args : List Literal)
    (b : Bus) : Outcome × Bus :=
  b.usingLoopback transport fun t l b =>
    let (args, b) := b.evaluateAll args
    let (result, b) := (b.takeInHand args).remoteCall h t l address interface name args
    remoteOutcome result .values (b.letGo args.length)

/-- Reads a property from afar. -/
def getFromAfar (transport address interface name : String) (b : Bus) : Outcome × Bus :=
  b.onLoopback transport fun _ l =>
    remoteOutcome ((b.remoteGet l address interface name).mapError .error) .value b

/-- Writes a property from afar. -/
def setFromAfar (h : Host) (transport address interface name : String) (value : Literal) (b : Bus) :
    Outcome × Bus :=
  b.usingLoopback transport fun _ l b =>
    let (v, b) := b.evaluate value
    let (result, b) := (b.takeInHand [v]).remoteSet h l address interface name v
    remoteOutcome result .flag (b.letGo 1)

/-- Reads all properties from afar. -/
def getAllFromAfar (transport address interface : String) (b : Bus) : Outcome × Bus :=
  b.onLoopback transport fun _ l =>
    remoteOutcome ((b.remoteGetAll l address interface).mapError .error) .named b

/-- Describes an address. -/
def introspectNamed (transport address : String) (b : Bus) : Outcome × Bus :=
  b.onLoopback transport fun _ l =>
    match b.introspect l address with
    | .error fault => (.failed (.fault fault), b)
    | .ok info =>
        let isWritable := info.interfaces.all fun i => i.isWritable
        (if isWritable then .done (.address info) else .failed .unwritable, b)

/-- The address of an object. -/
def addressOfLabel (transport label : String) (b : Bus) : Outcome × Bus :=
  b.onLoopback transport fun _ l =>
    let (o, b) := b.mention label
    (.done (match l.addressOf? o with
      | some address => .text address
      | none => .nothing), b)

/-- The object at an address. -/
def objectAtAddress (transport address : String) (b : Bus) : Outcome × Bus :=
  b.onLoopback transport fun _ l =>
    (.done (match l.managedAt? b.isLiveObject address with
      | some o => .object o
      | none => .nothing), b)

/-- The addresses of a loopback transport. -/
def addressesOf (transport : String) (b : Bus) : Outcome × Bus :=
  b.onLoopback transport fun _ l => (.done (.texts l.addresses), b)

/-- The interface names at an address. -/
def interfacesAtAddress (transport address : String) (b : Bus) : Outcome × Bus :=
  b.onLoopback transport fun _ l => (.done (.texts (l.namesAt address)), b)

/-- Ends the listening of a name. -/
def endListening (id : String) (b : Bus) : Bus :=
  match Entries.get? id b.desk.listeners with
  | none => b
  | some (t, k) =>
      match b.loopback? t with
      | none => b
      | some l => b.setLoopback t (l.unsubscribe k)

/-- Listens to the signals of a loopback transport. -/
def listen (transport id : String) (b : Bus) : Outcome × Bus :=
  b.onLoopback transport fun t l =>
    let k := b.next
    let b := { b.setLoopback t (l.subscribe k) with next := k + 1 }
    let b := b.endListening id
    doneWith { b with desk := { b.desk with listeners := Entries.put id (t, k) b.desk.listeners } }

/-- The events since the last look. -/
def lookAtEvents (id : String) (b : Bus) : Outcome × Bus :=
  match Entries.get? id b.desk.listeners with
  | none => b.misused ("no listener " ++ id)
  | some (t, k) =>
      match b.loopback? t with
      | none => b.misused ("no listener " ++ id)
      | some l => (.done (.events (l.inbox k)), b.setLoopback t (l.clearInbox k))

/-- Stops listening and tells whether the name listened. -/
def stopListening (id : String) (b : Bus) : Outcome × Bus :=
  let b' := b.endListening id
  (.done (.flag (Entries.has id b.desk.listeners)),
    { b' with desk := { b'.desk with listeners := Entries.drop id b'.desk.listeners } })

end ObjectBus.Bus
