import ObjectBus.Answer

/-!
# The state of the bus

The bus holds everything that lives: the forest of nodes, the interface values, the transports, the
storage cells, the method targets and the application objects. What the application holds of them,
by its own names, lies on its desk, together with the log and the trace.

Nothing here is kept alive by being in a table. A node, an interface value or a transport is live
while handles to it are held, and the count is kept with it. A storage cell is live while its name
is held or a property that holds it is there, by itself or in an interface value; an object is live
while its label is held, or a live cell, a property, an interface value or a running operation refers
to it (`isLiveObject`).
-/

set_option autoImplicit false

namespace ObjectBus

/-- **An interface value**, loose or attached. -/
structure Instance where
  interface : Interface
  /-- The node that the value believes to be attached to. -/
  owner : Option NodeId := none
  /-- How many handles to the value are held. -/
  handles : Nat := 1
  /-- Whether the value is held as such and not through a handle of its node. -/
  isLoose : Bool := true

/-- **A transport of either kind.** -/
inductive Transport where
  | recorder (recorder : Recorder)
  | loopback (transport : Loopback)

/-- The root address of a transport, as it is given. -/
def Transport.root : Transport → String
  | .recorder r => r.root
  | .loopback t => t.root

/-- A transport with the number of its handles. -/
structure Server where
  transport : Transport
  handles : Nat := 1

/-- **An application object.** A plain one is of another type than those that have a title. -/
structure Object where
  label : String
  isPlain : Bool := false
  deriving Inhabited

/-- A name whose thing may have been let go: what it stands for, and whether it is still held. -/
structure Hold where
  id : Nat
  isHeld : Bool := true

/-- **What the application holds**, by its own names. -/
structure Desk where
  nodes : Entries String NodeId := []
  weakNodes : Entries String NodeId := []
  interfaces : Entries String InterfaceId := []
  transports : Entries String TransportId := []
  cells : Entries String Hold := []
  /-- The properties that are held by themselves, and not in the table of an interface. -/
  properties : List Property := []
  targets : Entries String Hold := []
  /-- The objects held by label. -/
  labels : Entries String ObjectId := []
  weakObjects : Entries String ObjectId := []
  /-- The listeners by name: the transport and the number there. -/
  listeners : Entries String (TransportId × Nat) := []
  log : List LogEntry := []
  trace : List TraceEntry := []
  /-- The values that running operations work on. -/
  inHand : List Value := []

/-- **The bus.** Ids count up and are never used again. -/
structure Bus where
  forest : Forest := {}
  interfaces : Entries InterfaceId Instance := []
  transports : Entries TransportId Server := []
  cells : Entries CellId Cell := []
  targets : Entries TargetId Target := []
  objects : Entries ObjectId Object := []
  /-- The next id of everything but nodes. -/
  next : Nat := 0
  desk : Desk := {}

namespace Bus

/-! ## Looking things up -/

/-- The node with an id. -/
def node? (b : Bus) (n : NodeId) : Option Node := b.forest.get? n

/-- The interface value with an id. -/
def interface? (b : Bus) (i : InterfaceId) : Option Instance := Entries.get? i b.interfaces

/-- The name of an interface value. -/
def nameOf (b : Bus) (i : InterfaceId) : String :=
  match b.interface? i with
  | some x => x.interface.name
  | none => ""

/-- The transport with an id. -/
def transport? (b : Bus) (t : TransportId) : Option Transport :=
  (Entries.get? t b.transports).map (·.transport)

/-- The loopback transport with an id. -/
def loopback? (b : Bus) (t : TransportId) : Option Loopback :=
  match b.transport? t with
  | some (.loopback l) => some l
  | _ => none

/-- The recorder with an id. -/
def recorder? (b : Bus) (t : TransportId) : Option Recorder :=
  match b.transport? t with
  | some (.recorder r) => some r
  | _ => none

/-- The root address of a transport. -/
def rootOf (b : Bus) (t : TransportId) : String :=
  match b.transport? t with
  | some s => s.root
  | none => ""

/-- **The address of a node on a transport**, as text: the root of the transport joined with the
path of the node. -/
def addressText (b : Bus) (n : NodeId) (t : TransportId) : String :=
  Address.join (b.rootOf t) (b.forest.path n)

/-! ## What is live -/

/-- Whether handles to a node are held. -/
def isLiveNode (b : Bus) (n : NodeId) : Bool := b.forest.isLive n

/-- Whether handles to an interface value are held. -/
def isLiveInterface (b : Bus) (i : InterfaceId) : Bool :=
  match b.interface? i with
  | some x => 0 < x.handles
  | none => false

/-- Whether handles to a transport are held. -/
def isLiveServer (b : Bus) (t : TransportId) : Bool :=
  match Entries.get? t b.transports with
  | some s => 0 < s.handles
  | none => false

/-- The live transports of a node, in binding order. -/
def transportsOf (b : Bus) (node : Node) : List TransportId := node.servers.filter b.isLiveServer

/-- The live interfaces of a node, in name order. -/
def instancesOf (b : Bus) (node : Node) : List InterfaceId :=
  (Entries.values node.interfaces).filter b.isLiveInterface

/-- **Whether a storage cell is live**: its name is held, or a property holds it, whether the
application has the property by itself or an interface value has it in its table. -/
def isLiveCell (b : Bus) (c : CellId) : Bool :=
  b.desk.cells.any (fun e => e.2.id == c && e.2.isHeld)
    || b.desk.properties.any (·.holdsCell c)
    || b.interfaces.any fun e => e.2.interface.holdsCell c

/-- A storage cell, while it is live. -/
def cell? (b : Bus) (c : CellId) : Option Cell :=
  if b.isLiveCell c then Entries.get? c b.cells else none

/-- A method target, while its name is held. -/
def target? (b : Bus) (t : TargetId) : Option Target :=
  if b.desk.targets.any fun e => e.2.id == t && e.2.isHeld then Entries.get? t b.targets else none

/-- **Whether an object is live**: its label is held, or a live cell, a property, an interface value
or a running operation refers to it. -/
def isLiveObject (b : Bus) (o : ObjectId) : Bool :=
  (Entries.values b.desk.labels).contains o
    || b.cells.any (fun e => b.isLiveCell e.1 && e.2.value.objects.contains o)
    || b.desk.properties.any (·.source.objects.contains o)
    || b.interfaces.any (fun e => e.2.interface.objects.contains o)
    || (Value.objectsOfAll b.desk.inHand).contains o

/-- The label of an object. -/
def labelOf (b : Bus) (o : ObjectId) : String :=
  match Entries.get? o b.objects with
  | some x => x.label
  | none => ""

/-- The title of an object; a plain one has none. -/
def titleOf (b : Bus) (o : ObjectId) : String :=
  match Entries.get? o b.objects with
  | some x => if x.isPlain then "" else "title of " ++ x.label
  | none => ""

/-! ## Changing one thing -/

/-- Changes one node. -/
def adjustNode (b : Bus) (n : NodeId) (change : Node → Node) : Bus :=
  { b with forest := b.forest.adjust n change }

/-- Changes one interface value. -/
def adjustInterface (b : Bus) (i : InterfaceId) (change : Instance → Instance) : Bus :=
  { b with interfaces := Entries.adjust i change b.interfaces }

/-- Changes one transport. -/
def adjustServer (b : Bus) (t : TransportId) (change : Server → Server) : Bus :=
  { b with transports := Entries.adjust t change b.transports }

/-- Replaces a recorder. -/
def setRecorder (b : Bus) (t : TransportId) (r : Recorder) : Bus :=
  b.adjustServer t fun s => { s with transport := .recorder r }

/-- Replaces a loopback transport. -/
def setLoopback (b : Bus) (t : TransportId) (l : Loopback) : Bus :=
  b.adjustServer t fun s => { s with transport := .loopback l }

/-- Sets or clears what an interface value believes to be attached to. -/
def setOwner (b : Bus) (i : InterfaceId) (owner : Option NodeId) : Bus :=
  b.adjustInterface i fun x => { x with owner }

/-- Writes to the log. -/
def writeLog (b : Bus) (entry : LogEntry) : Bus :=
  { b with desk := { b.desk with log := b.desk.log ++ [entry] } }

/-- Writes to the trace. -/
def writeTrace (b : Bus) (entry : TraceEntry) : Bus :=
  { b with desk := { b.desk with trace := b.desk.trace ++ [entry] } }

/-- Takes values in hand for an operation. -/
def takeInHand (b : Bus) (vs : List Value) : Bus :=
  { b with desk := { b.desk with inHand := vs ++ b.desk.inHand } }

/-- Lets the last `n` values taken in hand go. -/
def letGo (b : Bus) (n : Nat) : Bus :=
  { b with desk := { b.desk with inHand := b.desk.inHand.drop n } }

/-- A new interface value with one handle. -/
def newInstance (b : Bus) (x : Instance) : InterfaceId × Bus :=
  (b.next, { b with interfaces := Entries.put b.next x b.interfaces, next := b.next + 1 })

/-- A new transport with one handle. -/
def newTransport (b : Bus) (transport : Transport) : TransportId × Bus :=
  (b.next, { b with
    transports := Entries.put b.next { transport } b.transports
    next := b.next + 1 })

/-- **The object of a label**, made at the first mention. -/
def mention (b : Bus) (label : String) : ObjectId × Bus :=
  match Entries.get? label b.desk.labels with
  | some o => (o, b)
  | none =>
      (b.next, { b with
        objects := Entries.put b.next { label } b.objects
        next := b.next + 1
        desk := { b.desk with labels := Entries.put label b.next b.desk.labels } })

/-- Mentions labels one after the other. -/
def mentionAll (b : Bus) (labels : List String) : Bus :=
  labels.foldl (fun b label => (b.mention label).2) b

/-- The object that a label stands for now. -/
def objectOf (b : Bus) (label : String) : ObjectId :=
  (Entries.get? label b.desk.labels).getD 0

/-- **The value of a literal**; its labels are mentioned. -/
def evaluate (b : Bus) (l : Literal) : Value × Bus :=
  let b := b.mentionAll l.labels
  (l.value b.objectOf, b)

/-- The values of literals; their labels are mentioned. -/
def evaluateAll (b : Bus) (ls : List Literal) : List Value × Bus :=
  let b := b.mentionAll (Literal.labelsOfAll ls)
  (Literal.valueOfAll b.objectOf ls, b)

end Bus

end ObjectBus
