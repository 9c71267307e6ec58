import ObjectBus.Entries
import ObjectBus.Member.Function
import ObjectBus.Member.Property
import ObjectBus.Member.Signal

/-!
# Interfaces — named bundles of functions, properties and signals

An interface is a name and three tables of members, each in name order. The description of an
interface lists every member with its shapes, for whoever publishes what an address offers.
-/

set_option autoImplicit false

namespace ObjectBus

/-- **An interface.** -/
structure Interface where
  name : String
  functions : Entries String Function := []
  properties : Entries String Property := []
  signals : Entries String Signal := []

/-- One named argument or result. -/
structure Parameter where
  name : String
  type : Shape

/-- The description of a function. -/
structure Function.Outline where
  name : String
  inputs : List Parameter
  outputs : List Parameter

/-- The description of a property. -/
structure Property.Outline where
  name : String
  type : Shape
  readable : Bool
  writeable : Bool

/-- The description of a signal. -/
structure Signal.Outline where
  name : String
  args : List Parameter

/-- **Everything that an interface declares**, in name order. -/
structure Interface.Outline where
  name : String
  functions : List Function.Outline
  properties : List Property.Outline
  signals : List Signal.Outline

/-- What is published for one address. -/
structure Address.Outline where
  address : String
  interfaces : List Interface.Outline
  children : List String

/-- Names with their shapes. -/
def Parameter.list (names : List String) (types : List Shape) : List Parameter :=
  List.zipWith Parameter.mk names types

namespace Interface

/-- The function of a name. -/
def function (i : Interface) (name : String) : Except BusError Function :=
  match Entries.get? name i.functions with
  | some f => .ok f
  | none => .error (.unknownMember .function name)

/-- The property of a name. -/
def property (i : Interface) (name : String) : Except BusError Property :=
  match Entries.get? name i.properties with
  | some p => .ok p
  | none => .error (.unknownMember .property name)

/-- The signal of a name. -/
def signal (i : Interface) (name : String) : Except BusError Signal :=
  match Entries.get? name i.signals with
  | some s => .ok s
  | none => .error (.unknownMember .signal name)

/-- **Describes an interface.** -/
def describe (i : Interface) : Interface.Outline where
  name := i.name
  functions := i.functions.map fun (name, f) =>
    { name
      inputs := Parameter.list f.argNames f.argTypes
      outputs := Parameter.list f.returnNames f.returnTypes }
  properties := i.properties.map fun (name, p) =>
    { name
      type := p.shape
      readable := p.permissions.readable
      writeable := p.permissions.writeable }
  signals := i.signals.map fun (name, s) => { name, args := Parameter.list s.names s.types }

/-- The objects that an interface keeps alive by itself, its storage aside. -/
def objects (i : Interface) : List ObjectId :=
  i.functions.flatMap (fun e => e.2.routine.objects)
    ++ i.properties.flatMap fun e => e.2.source.objects

/-- Whether an interface keeps a storage cell alive. -/
def holdsCell (i : Interface) (c : CellId) : Bool :=
  i.properties.any fun e => e.2.holdsCell c

end Interface

namespace Interface.Outline

/-- The shapes that occur in a description. -/
def shapes (i : Interface.Outline) : List Shape :=
  i.functions.flatMap (fun f => f.inputs.map (·.type) ++ f.outputs.map (·.type))
    ++ i.properties.map (·.type)
    ++ i.signals.flatMap fun s => s.args.map (·.type)

/-- Whether the description can be written down: every shape in it has a signature. -/
def isWritable (i : Interface.Outline) : Bool := i.shapes.all fun t => t.letters?.isSome

end Interface.Outline

end ObjectBus
