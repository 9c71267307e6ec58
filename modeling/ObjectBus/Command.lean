import ObjectBus.Literal
import ObjectBus.Native

/-!
# Commands — what an application asks of the bus

A command names what it works on by the names the application has given: nodes, interfaces,
transports, storage cells, method targets, objects. Commands are data, and so are the callables, the
properties and the hooks that an application brings along, because some of those run commands
themselves: the bus is then entered again while an operation on it is under way.

The callables are the stock routines listed here, methods over a target with two counters, and the
generic ones (identity, constant, sink, a list of commands).
-/

set_option autoImplicit false

namespace ObjectBus

/-- **The stock routines**: native callables of every arity. -/
inductive Stock where
  /-- Splits a text after a number of characters. -/
  | cut
  /-- Always fails, with a code. -/
  | fail
  /-- Doubles a number that is not negative. -/
  | double
  /-- Fails unless told otherwise. -/
  | check
  /-- Quotient and remainder, toward zero. -/
  | divide
  | answer
  | nothing
  /-- Panics with a text, unless it is `quiet`. -/
  | boom
  | sum
  /-- Looks a key up in a map. -/
  | lookup
  | wide3
  | wide4
  | wide5
  | wide6
  | wide7
  | wide8
  /-- The title of an object. -/
  | title
  /-- The titles of a list of objects. -/
  | titles
  deriving DecidableEq, Repr

/-- **The methods over a target**, which has a fixed step and a running total. -/
inductive Method where
  | scale
  | step
  | add
  | strict
  deriving DecidableEq, Repr

/-- How a validator compares a written value with its bound. -/
inductive Comparison where
  | atMost
  | atLeast
  | other
  deriving DecidableEq, Repr

/-- The fields of a player, the projected state. -/
inductive PlayerField where
  | volume
  | muted
  | title
  | unlucky
  deriving DecidableEq, Repr

/-- How a property uses its cell. -/
inductive AccessSpec where
  | plain
  | readOnly
  | weak
  | validated (accept : Comparison) (bound : Literal)

/-- Where a property keeps its value. -/
inductive SourceSpec where
  | cell (cell : String) (access : AccessSpec)
  | field (player : String) (field : PlayerField)

/-- **What may be read and written.** -/
structure Permissions where
  readable : Bool
  writeable : Bool
  deriving DecidableEq, Repr

/-- The declaration of a signal: the names and the shapes of its arguments. -/
structure SignalSpec where
  names : List String
  types : List Shape

/-- The four calls that a transport takes. -/
inductive CallKind where
  | add
  | drop
  | emit
  | manage
  deriving DecidableEq, Repr

mutual
/-- **What a callable does.** -/
inductive RoutineSpec where
  | stock (routine : Stock)
  | identity (type : Native)
  | constant (type : Native) (value : Literal)
  /-- Writes its argument to the log. -/
  | sink (type : Native)
  /-- Writes a number, a text and a flag to the log. -/
  | note
  | commands (list : List Command)
  | method (method : Method) (target : String)

/-- The declaration of a function, with the names of its arguments and results if they are given. -/
inductive FunctionSpec where
  | mk (args returns : Option (List String)) (routine : RoutineSpec)

/-- The declaration of a property, with a hook that is told of applied writes if it has an id. -/
inductive PropertySpec where
  | mk (source : SourceSpec) (permissions : Permissions) (hook : Option String)
      (commands : List Command)

/-- **A command.** -/
inductive Command where
  -- nodes
  | root (id name : String)
  | child (id parent name : String)
  | holdNode (id node : String)
  | dropNode (node : String)
  | weakNode (id node : String)
  | weakName (id : String)
  | nodeInfo (node : String)
  | addressText (node transport : String)
  | manage (node : String) (object : Option String)
  | bind (node transport : String)
  | unbind (node transport : String)
  | detach (node name : String)
  | hasInterface (node name : String)
  -- interfaces
  | declare (id name : String) (functions : List (String × FunctionSpec))
      (properties : List (String × PropertySpec)) (signals : List (String × SignalSpec))
  | attach (iface node : String)
  | takeOut (iface : String)
  | clone (iface id : String)
  | hold (iface id : String)
  | release (iface : String)
  | attached (iface : String)
  | describe (iface : String)
  | functionInfo (iface name : String)
  | propertyInfo (iface name : String)
  | signalInfo (iface name : String)
  | editProperties (iface name : String) (property : Option PropertySpec)
  | call (iface name : String) (args : List Literal)
  | get (iface name : String)
  | set (iface name : String) (value : Literal)
  | emit (iface signal : String) (args : List Literal)
  | emitNative (iface signal : String) (pack : List Native) (args : List Literal)
  -- storage, targets and objects
  | cell (id : String) (type : Native) (init : Literal)
  | player (id : String)
  | peek (id : String)
  | dropCell (id : String)
  | target (id : String) (step : UInt32)
  | dropTarget (id : String)
  | plainObject (object : String)
  | dropObject (object : String)
  | weakObject (id object : String)
  | weakObjectInfo (id object : String)
  | log
  | trace
  -- transports
  | recorder (id root : String)
  | refuse (transport : String) (names : List String)
  | failEmit (transport : String) (fail : Bool)
  | registered (transport : String)
  | managing (transport : String)
  | hook (transport : String) (on : CallKind) (iface : Option String) (commands : List Command)
  | openLoopback (id name root : String) (stopped : Bool)
  | dropTransport (transport : String)
  | start (transport : String)
  | stop (transport : String)
  | transportInfo (transport : String)
  | addAt (transport node iface : String)
  | dropAt (transport address interface : String)
  | emitAt (transport address interface signal : String) (args : List Literal) (argsType : Shape)
  -- from afar, through a loopback transport
  | remoteCall (transport address interface name : String) (args : List Literal)
  | remoteGet (transport address interface name : String)
  | remoteSet (transport address interface name : String) (value : Literal)
  | remoteGetAll (transport address interface : String)
  | introspect (transport address : String)
  | findObject (transport object : String)
  | objectAt (transport address : String)
  | addresses (transport : String)
  | namesAt (transport address : String)
  | subscribe (transport id : String)
  | events (id : String)
  | unsubscribe (id : String)
end

mutual
/-- The number of commands in a command, itself included. -/
def Command.size : Command → Nat
  | .declare _ _ fs ps _ => 1 + functionsSize fs + propertiesSize ps
  | .editProperties _ _ (some p) => 1 + p.size
  | .hook _ _ _ cs => 1 + commandsSize cs
  | _ => 1

/-- The number of commands in a function. -/
def FunctionSpec.size : FunctionSpec → Nat
  | .mk _ _ (.commands cs) => commandsSize cs
  | .mk _ _ _ => 0

/-- The number of commands in a property. -/
def PropertySpec.size : PropertySpec → Nat
  | .mk _ _ _ cs => commandsSize cs

/-- The number of commands in a table of functions. -/
def functionsSize : List (String × FunctionSpec) → Nat
  | [] => 0
  | (_, f) :: fs => f.size + functionsSize fs

/-- The number of commands in a table of properties. -/
def propertiesSize : List (String × PropertySpec) → Nat
  | [] => 0
  | (_, p) :: ps => p.size + propertiesSize ps

/-- The number of commands in a list, with those that they contain. -/
def commandsSize : List Command → Nat
  | [] => 0
  | c :: cs => c.size + commandsSize cs
end

end ObjectBus
