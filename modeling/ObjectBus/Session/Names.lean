import ObjectBus.Bus.Handles

/-!
# Names — what commands work on

A command finds what it works on by name, and holds it until it is done. A name that stands for
nothing makes no sense in a command. Giving a name that is in use lets go of what it stood for.
-/

set_option autoImplicit false

namespace ObjectBus.Bus

/-- The outcome of a command that makes no sense. -/
def misused (text : String) (b : Bus) : Outcome × Bus := (.failed (.misuse text), b)

/-- The outcome of a command that gives back nothing but the bus. -/
def doneWith (b : Bus) : Outcome × Bus := (.done .nothing, b)

/-- Works on the node of a name. -/
def onNode (name : String) (b : Bus) (work : NodeId → Outcome × Bus) : Outcome × Bus :=
  match Entries.get? name b.desk.nodes with
  | none => b.misused ("no node " ++ name)
  | some n => work n

/-- Works on the node of a name and holds it meanwhile. -/
def usingNode (h : Host) (name : String) (b : Bus) (work : NodeId → Bus → Outcome × Bus) :
    Outcome × Bus :=
  b.onNode name fun n =>
    let (outcome, b) := work n (b.holdNode n)
    (outcome, b.releaseNode h n)

/-- Works on the interface value of a name. -/
def onInterface (name : String) (b : Bus) (work : InterfaceId → Instance → Outcome × Bus) :
    Outcome × Bus :=
  match Entries.get? name b.desk.interfaces with
  | none => b.misused ("no interface " ++ name)
  | some i =>
      match b.interface? i with
      | none => b.misused ("no interface " ++ name)
      | some x => work i x

/-- Works on the interface value of a name and holds it meanwhile. -/
def usingInterface (h : Host) (name : String) (b : Bus)
    (work : InterfaceId → Interface → Bus → Outcome × Bus) : Outcome × Bus :=
  b.onInterface name fun i x =>
    let (outcome, b) := work i x.interface (b.holdInterface i)
    (outcome, b.releaseInterface h i)

/-- Works on the transport of a name. -/
def onServer (name : String) (b : Bus) (work : TransportId → Outcome × Bus) : Outcome × Bus :=
  match Entries.get? name b.desk.transports with
  | none => b.misused ("no transport " ++ name)
  | some t => work t

/-- Works on the transport of a name and holds it meanwhile. -/
def usingServer (name : String) (b : Bus) (work : TransportId → Bus → Outcome × Bus) :
    Outcome × Bus :=
  b.onServer name fun t =>
    let (outcome, b) := work t (b.holdServer t)
    (outcome, b.releaseServer t)

/-- Works on the recorder of a name. -/
def onRecorder (name : String) (b : Bus) (work : TransportId → Recorder → Outcome × Bus) :
    Outcome × Bus :=
  b.onServer name fun t =>
    match b.recorder? t with
    | none => b.misused ("not a recorder: " ++ name)
    | some r => work t r

/-- Works on the loopback transport of a name. -/
def onLoopback (name : String) (b : Bus) (work : TransportId → Loopback → Outcome × Bus) :
    Outcome × Bus :=
  b.onServer name fun t =>
    match b.loopback? t with
    | none => b.misused ("not a loopback transport: " ++ name)
    | some l => work t l

/-- Works on the loopback transport of a name and holds it meanwhile. -/
def usingLoopback (name : String) (b : Bus)
    (work : TransportId → Loopback → Bus → Outcome × Bus) : Outcome × Bus :=
  b.onLoopback name fun t l =>
    let (outcome, b) := work t l (b.holdServer t)
    (outcome, b.releaseServer t)

/-- Names a node that is held for it. -/
def nameNode (h : Host) (name : String) (n : NodeId) (b : Bus) : Bus :=
  let old := Entries.get? name b.desk.nodes
  let b := { b with desk := { b.desk with nodes := Entries.put name n b.desk.nodes } }
  match old with
  | none => b
  | some o => b.releaseNode h o

/-- Names an interface value that is held for it. -/
def nameInterface (h : Host) (name : String) (i : InterfaceId) (b : Bus) : Bus :=
  let old := Entries.get? name b.desk.interfaces
  let b := { b with desk := { b.desk with interfaces := Entries.put name i b.desk.interfaces } }
  match old with
  | none => b
  | some o => b.releaseInterface h o

/-- Takes the name off an interface value, which stays held. -/
def unnameInterface (name : String) (b : Bus) : Bus :=
  { b with desk := { b.desk with interfaces := Entries.drop name b.desk.interfaces } }

/-- Names a transport that is held for it. -/
def nameServer (name : String) (t : TransportId) (b : Bus) : Bus :=
  let old := Entries.get? name b.desk.transports
  let b := { b with desk := { b.desk with transports := Entries.put name t b.desk.transports } }
  match old with
  | none => b
  | some o => b.releaseServer o

end ObjectBus.Bus
