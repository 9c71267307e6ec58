import ObjectBus.Bus.Bind
import ObjectBus.Bus.Destroy
import ObjectBus.Session.Names

/-!
# Commands on nodes
-/

set_option autoImplicit false

namespace ObjectBus.Bus

/-- **What is to be seen of a node.** Parent and children count only while they are live. -/
def report (b : Bus) (n : NodeId) (node : Node) : NodeReport where
  name := node.name
  path := b.forest.path n
  isRoot := node.parent.isNone
  parent := (node.parent.filter b.isLiveNode).map b.forest.path
  children :=
    (node.children.filter b.isLiveNode).filterMap fun c => (b.node? c).map (·.name)
  servers := (b.transportsOf node).map b.rootOf
  interfaces :=
    (node.interfaces.filter fun e => b.isLiveInterface e.2).map (·.1)
  managed := node.managing.filter b.isLiveObject

/-- The outcome of an operation that may fail with a bus error. -/
def outcomeOf (result : Except BusError Unit) (b : Bus) : Outcome × Bus :=
  match result with
  | .ok () => (.done .nothing, b)
  | .error e => (.failed (.bus e), b)

/-- Makes a root. -/
def plantRoot (h : Host) (id name : String) (b : Bus) : Outcome × Bus :=
  let (n, forest) := b.forest.grow name none []
  doneWith ({ b with forest }.nameNode h id n)

/-- Makes a child, bound to the live transports that its parent is bound to now. -/
def plantChild (h : Host) (id parent name : String) (b : Bus) : Outcome × Bus :=
  b.onNode parent fun p =>
    let servers :=
      match b.node? p with
      | none => []
      | some node => b.transportsOf node
    let (n, forest) := b.forest.grow name (some p) servers
    doneWith ({ b with forest }.nameNode h id n)

/-- Gives a second name to a node. -/
def holdNodeAs (h : Host) (id node : String) (b : Bus) : Outcome × Bus :=
  b.onNode node fun n => doneWith ((b.holdNode n).nameNode h id n)

/-- Lets a node go. -/
def dropNode (h : Host) (node : String) (b : Bus) : Outcome × Bus :=
  b.onNode node fun n =>
    doneWith
      ({ b with desk := { b.desk with nodes := Entries.drop node b.desk.nodes } }.releaseNode h n)

/-- Remembers a node without holding it. -/
def rememberNode (id node : String) (b : Bus) : Outcome × Bus :=
  b.onNode node fun n =>
    doneWith { b with desk := { b.desk with weakNodes := Entries.put id n b.desk.weakNodes } }

/-- The path of a remembered node, while it is live. -/
def rememberedPath (id : String) (b : Bus) : Outcome × Bus :=
  match Entries.get? id b.desk.weakNodes with
  | none => b.misused ("no weak node " ++ id)
  | some n => (.done (if b.isLiveNode n then .text (b.forest.path n) else .nothing), b)

/-- Reports on a node. -/
def nodeInfo (node : String) (b : Bus) : Outcome × Bus :=
  b.onNode node fun n =>
    match b.node? n with
    | none => b.misused ("no node " ++ node)
    | some x => (.done (.node (b.report n x)), b)

/-- Makes a node manage the object of a label, or nothing. -/
def manageLabel (h : Host) (node : String) (object : Option String) (b : Bus) : Outcome × Bus :=
  b.usingNode h node fun n b =>
    match object with
    | none => doneWith (b.manage h n none)
    | some label =>
        let (o, b) := b.mention label
        doneWith (((b.takeInHand [.scalar .object o]).manage h n (some o)).letGo 1)

/-- Binds a node to a transport. -/
def bindTo (h : Host) (node transport : String) (b : Bus) : Outcome × Bus :=
  b.usingNode h node fun n b =>
    b.usingServer transport fun t b =>
      let (result, b) := b.bind h n t
      outcomeOf result b

/-- Unbinds a node from a transport. -/
def unbindFrom (h : Host) (node transport : String) (b : Bus) : Outcome × Bus :=
  b.usingNode h node fun n b =>
    b.usingServer transport fun t b =>
      let (bound, b) := b.unbind h n t
      (.done (.flag bound), b)

/-- Drops an interface name from a node. -/
def dropName (h : Host) (node name : String) (b : Bus) : Outcome × Bus :=
  b.usingNode h node fun n b =>
    let (present, b) := b.detach h n name
    (.done (.flag present), b)

/-- The name of an interface that is attached to a node. -/
def attachedName (node name : String) (b : Bus) : Outcome × Bus :=
  b.onNode node fun n =>
    let i := (b.node? n).bind fun x => (Entries.get? name x.interfaces).filter b.isLiveInterface
    (.done (match i with
      | some i => .text (b.nameOf i)
      | none => .nothing), b)

end ObjectBus.Bus
