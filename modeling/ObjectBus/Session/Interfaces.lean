import ObjectBus.Bus.Attach
import ObjectBus.Bus.Build
import ObjectBus.Bus.Emit
import ObjectBus.Bus.Members
import ObjectBus.Session.Names

/-!
# Commands on interfaces
-/

set_option autoImplicit false

namespace ObjectBus.Bus

/-- The outcome of an operation that may fail with a bus error or panic. -/
def outcomeWith {α : Type} (result : Except (Failure BusError) α) (answer : α → Answer) (b : Bus) :
    Outcome × Bus :=
  match result with
  | .ok x => (.done (answer x), b)
  | .error e => (.failed e.trouble, b)

/-- The outcome of looking a member up. -/
def memberOutcome {α : Type} (result : Except BusError α) (answer : α → Answer) (b : Bus) :
    Outcome × Bus :=
  match result with
  | .ok x => (.done (answer x), b)
  | .error e => (.failed (.bus e), b)

/-- The outcome of emitting a signal of an interface. -/
def emitOutcome (interface signal : String) (result : Except EmitError Unit) (b : Bus) :
    Outcome × Bus :=
  match result with
  | .ok () => (.done .nothing, b)
  | .error e => (.failed (.panic (e.message interface signal)), b)

/-- Builds a loose interface value. -/
def declare (h : Host) (id name : String) (functions : List (String × FunctionSpec))
    (properties : List (String × PropertySpec)) (signals : List (String × SignalSpec)) (b : Bus) :
    Outcome × Bus :=
  match b.buildInterface name functions properties signals with
  | (.error trouble, b) => (.failed trouble, b)
  | (.ok interface, b) =>
      let (i, b) := b.newInstance { interface }
      doneWith (b.nameInterface h id i)

/-- **Attaches a loose interface value.** The node takes the value; if it refuses, the value is
destroyed. -/
def attachTo (h : Host) (iface node : String) (b : Bus) : Outcome × Bus :=
  b.onInterface iface fun i x =>
    if !x.isLoose then b.misused ("not loose: " ++ iface)
    else
      b.usingNode h node fun n b =>
        let b := (b.unnameInterface iface).adjustInterface i fun x => { x with isLoose := false }
        match b.attach h i n with
        | (.ok (), b) => doneWith (b.nameInterface h iface i)
        | (.error e, b) => (.failed e.trouble, b.releaseInterface h i)

/-- **Moves an interface value out of its last handle.** The value becomes another one, which keeps
what it believes about its node; what the node knows is gone. -/
def takeOut (iface : String) (b : Bus) : Outcome × Bus :=
  b.onInterface iface fun i x =>
    if x.isLoose || x.handles != 1 then (.done (.flag false), b)
    else
      let b := { b with interfaces := Entries.drop i b.interfaces }
      let (j, b) := b.newInstance { x with isLoose := true }
      (.done (.flag true),
        { b with desk := { b.desk with interfaces := Entries.put iface j b.desk.interfaces } })

/-- Copies an interface value. The copy is detached. -/
def cloneAs (h : Host) (iface id : String) (b : Bus) : Outcome × Bus :=
  b.onInterface iface fun _ x =>
    let (j, b) := b.newInstance { interface := x.interface }
    doneWith (b.nameInterface h id j)

/-- Gives a second name to an attached interface value. -/
def holdAs (h : Host) (iface id : String) (b : Bus) : Outcome × Bus :=
  b.onInterface iface fun i x =>
    if x.isLoose then b.misused ("loose: " ++ iface)
    else doneWith ((b.holdInterface i).nameInterface h id i)

/-- Lets an interface value go. -/
def releaseNamed (h : Host) (iface : String) (b : Bus) : Outcome × Bus :=
  b.onInterface iface fun i _ => doneWith ((b.unnameInterface iface).releaseInterface h i)

/-- Whether an interface value believes to be attached, and the path of its node if that lives. -/
def attachment (iface : String) (b : Bus) : Outcome × Bus :=
  b.onInterface iface fun _ x =>
    (.done (.attachment x.owner.isSome ((x.owner.filter b.isLiveNode).map b.forest.path)), b)

/-- Describes an interface. -/
def describeNamed (iface : String) (b : Bus) : Outcome × Bus :=
  b.onInterface iface fun _ x =>
    let info := x.interface.describe
    (if info.isWritable then .done (.interface info) else .failed .unwritable, b)

/-- Looks a function up. -/
def functionInfo (iface name : String) (b : Bus) : Outcome × Bus :=
  b.onInterface iface fun _ x => memberOutcome (x.interface.function name) .function b

/-- Looks a property up. -/
def propertyInfo (iface name : String) (b : Bus) : Outcome × Bus :=
  b.onInterface iface fun _ x => memberOutcome (x.interface.property name) .property b

/-- Looks a signal up. -/
def signalInfo (iface name : String) (b : Bus) : Outcome × Bus :=
  b.onInterface iface fun _ x => memberOutcome (x.interface.signal name) .signal b

/-- **Edits the properties of an interface value**: a declared property is stored, and without a
declaration the name is dropped. A value that believes to be attached refuses. -/
def editProperties (iface name : String) (spec : Option PropertySpec) (b : Bus) : Outcome × Bus :=
  b.onInterface iface fun i x =>
    let (built, b) : Except Trouble (Option Property) × Bus :=
      match spec with
      | none => (.ok none, b)
      | some spec =>
          let (built, b) := b.buildProperty spec
          (built.map some, b)
    match built with
    | .error trouble => (.failed trouble, b)
    | .ok property =>
        if x.owner.isSome then (.done (.text "attached"), b)
        else
          let old := x.interface.properties
          let edited :=
            match property with
            | some p => Entries.put name p old
            | none => Entries.drop name old
          (.done (.edited (Entries.has name old) (Entries.keys edited)),
            b.adjustInterface i fun x =>
              { x with interface := { x.interface with properties := edited } })

/-- Calls a function. -/
def callNamed (h : Host) (iface name : String) (args : List Literal) (b : Bus) : Outcome × Bus :=
  b.usingInterface h iface fun _ x b =>
    let (args, b) := b.evaluateAll args
    match x.function name with
    | .error e => (.failed (.bus e), b)
    | .ok f =>
        let (result, b) := (b.takeInHand args).callFunction h f args
        outcomeWith result .values (b.letGo args.length)

/-- Reads a property. -/
def getNamed (iface name : String) (b : Bus) : Outcome × Bus :=
  b.onInterface iface fun _ x =>
    memberOutcome ((x.interface.property name).bind b.readProperty) .value b

/-- Writes a property. -/
def setNamed (h : Host) (iface name : String) (value : Literal) (b : Bus) : Outcome × Bus :=
  b.usingInterface h iface fun _ x b =>
    let (v, b) := b.evaluate value
    match x.property name with
    | .error e => (.failed (.bus e), b)
    | .ok p =>
        let (result, b) := (b.takeInHand [v]).writeProperty h p v
        outcomeWith result .flag (b.letGo 1)

/-- Emits a signal with encoded arguments. -/
def emitNamed (h : Host) (iface signal : String) (args : List Literal) (b : Bus) : Outcome × Bus :=
  b.usingInterface h iface fun i x b =>
    let (args, b) := b.evaluateAll args
    let (result, b) := (b.takeInHand args).emitValues h i signal args
    emitOutcome x.name signal result (b.letGo args.length)

/-- Emits a signal with a native pack. -/
def emitPackNamed (h : Host) (iface signal : String) (types : List Native) (args : List Literal)
    (b : Bus) : Outcome × Bus :=
  b.usingInterface h iface fun i x b =>
    let (args, b) := b.evaluateAll args
    match Native.decodePack types args with
    | .error e => (.failed (.value e), b)
    | .ok xs =>
        let (result, b) := (b.takeInHand args).emitPack h i signal types xs
        emitOutcome x.name signal result (b.letGo args.length)

end ObjectBus.Bus
