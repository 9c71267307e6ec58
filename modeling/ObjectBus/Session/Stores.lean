import ObjectBus.Session.Names

/-!
# Commands on storage, targets and objects
-/

set_option autoImplicit false

namespace ObjectBus.Bus

/-- Makes a storage cell for a native type. -/
def makeCell (id : String) (type : Native) (init : Literal) (b : Bus) : Outcome × Bus :=
  let (v, b) := b.evaluate init
  match type.decode v with
  | .error e => (.failed (.value e), b)
  | .ok x =>
      doneWith { b with
        cells := Entries.put b.next (.typed type (type.encode x)) b.cells
        next := b.next + 1
        desk := { b.desk with cells := Entries.put id { id := b.next } b.desk.cells } }

/-- Makes a player. -/
def makePlayer (id : String) (b : Bus) : Outcome × Bus :=
  doneWith { b with
    cells := Entries.put b.next (.player {}) b.cells
    next := b.next + 1
    desk := { b.desk with cells := Entries.put id { id := b.next } b.desk.cells } }

/-- The content of a storage cell, while it is live. -/
def peek (id : String) (b : Bus) : Outcome × Bus :=
  match Entries.get? id b.desk.cells with
  | none => b.misused ("no cell " ++ id)
  | some hold =>
      (.done (match b.cell? hold.id with
        | some cell => .value cell.value
        | none => .nothing), b)

/-- Lets a storage cell go. -/
def dropCell (id : String) (b : Bus) : Outcome × Bus :=
  doneWith { b with
    desk := { b.desk with
      cells := Entries.adjust id (fun hold => { hold with isHeld := false }) b.desk.cells } }

/-- Makes a method target. -/
def makeTarget (id : String) (step : UInt32) (b : Bus) : Outcome × Bus :=
  doneWith { b with
    targets := Entries.put b.next { step } b.targets
    next := b.next + 1
    desk := { b.desk with targets := Entries.put id { id := b.next } b.desk.targets } }

/-- Lets a method target go. -/
def dropTarget (id : String) (b : Bus) : Outcome × Bus :=
  doneWith { b with
    desk := { b.desk with
      targets := Entries.adjust id (fun hold => { hold with isHeld := false }) b.desk.targets } }

/-- Puts a new plain object under a label. -/
def makePlainObject (label : String) (b : Bus) : Outcome × Bus :=
  doneWith { b with
    objects := Entries.put b.next { label, isPlain := true } b.objects
    next := b.next + 1
    desk := { b.desk with labels := Entries.put label b.next b.desk.labels } }

/-- Lets the object of a label go and tells whether there was one. -/
def dropObject (label : String) (b : Bus) : Outcome × Bus :=
  (.done (.flag (Entries.has label b.desk.labels)),
    { b with desk := { b.desk with labels := Entries.drop label b.desk.labels } })

/-- Remembers an object without holding it. -/
def rememberObject (id label : String) (b : Bus) : Outcome × Bus :=
  let (o, b) := b.mention label
  doneWith { b with desk := { b.desk with weakObjects := Entries.put id o b.desk.weakObjects } }

/-- What has become of a remembered object, and whether it is the one of a label now. -/
def rememberedObject (id label : String) (b : Bus) : Outcome × Bus :=
  match Entries.get? id b.desk.weakObjects with
  | none => b.misused ("no weak object " ++ id)
  | some o =>
      let live := b.isLiveObject o
      let (p, b) := b.mention label
      (.done (.weak (!live) (if live then some o else none) (o == p)), b)

/-- Takes the log. -/
def takeLog (b : Bus) : Outcome × Bus :=
  (.done (.log b.desk.log), { b with desk := { b.desk with log := [] } })

/-- Takes the trace. -/
def takeTrace (b : Bus) : Outcome × Bus :=
  (.done (.trace b.desk.trace), { b with desk := { b.desk with trace := [] } })

end ObjectBus.Bus
