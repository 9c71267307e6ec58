import ObjectBus.Command
import ObjectBus.Entries

/-!
# Recorder — a transport that records what it is asked

A recorder keeps a set of registrations, pairs of an address and an interface name, and the object
managed at each address. It can be told to refuse registrations and to drop signals, and it can run
commands at the end of a call: each of its hooks fires once, at the first call that fits it.

All texts are kept as they are given; a recorder does not read addresses.
-/

set_option autoImplicit false

namespace ObjectBus

/-- How a registration ends. -/
inductive Registered where
  | ok
  | refused
  | duplicate
  deriving DecidableEq, Repr

/-- What a recorder is told that a node manages: nothing, an object, or one that is gone. -/
inductive ManagedMark where
  | nothing
  | gone
  | object (id : ObjectId)
  deriving DecidableEq, Repr

/-- **One call as it is recorded**, with the label of the recorder. -/
inductive TraceEntry where
  | add (label address interface : String) (outcome : Registered)
  | drop (label address interface : String) (present : Bool)
  | emit (label address interface signal : String) (args : List Value) (argsType : Shape)
      (delivered : Bool)
  | manage (label address : String) (mark : ManagedMark)

/-- Commands to run at the end of the next call of a kind, for one interface or for any. -/
structure Hook where
  on : CallKind
  interface : Option String
  commands : List Command

/-- **A recording transport.** -/
structure Recorder where
  label : String
  root : String
  /-- The registrations, oldest first. -/
  registered : List (String × String) := []
  /-- The managed objects by address. -/
  managing : Entries String ObjectId := []
  /-- The interface names that are refused; `*` stands for all. -/
  refusals : List String := []
  dropsSignals : Bool := false
  hooks : List Hook := []

/-- Whether a hook fits a call. A call that concerns no interface fits hooks for any. -/
def Hook.fits (h : Hook) (on : CallKind) (interface : Option String) : Bool :=
  h.on == on && (h.interface.isNone || h.interface == interface)

/-- Takes the first hook that fits a call out of a list. -/
def Hook.takeFirst? (on : CallKind) (interface : Option String) :
    List Hook → Option (List Command × List Hook)
  | [] => none
  | h :: hs =>
      if h.fits on interface then some (h.commands, hs)
      else (takeFirst? on interface hs).map fun r => (r.1, h :: r.2)

namespace Recorder

/-- **Registers an interface name at an address**, unless it is refused or registered already. -/
def add (r : Recorder) (address interface : String) : Registered × Recorder :=
  if r.refusals.contains interface || r.refusals.contains "*" then (.refused, r)
  else if r.registered.contains (address, interface) then (.duplicate, r)
  else (.ok, { r with registered := r.registered ++ [(address, interface)] })

/-- **Drops a registration** and tells whether it was there. -/
def drop (r : Recorder) (address interface : String) : Bool × Recorder :=
  (r.registered.contains (address, interface),
    { r with registered := r.registered.filter (· != (address, interface)) })

/-- Sets or clears the object managed at an address. -/
def manage (r : Recorder) (address : String) (object : Option ObjectId) : Recorder :=
  { r with
    managing :=
      match object with
      | some o => Entries.put address o r.managing
      | none => Entries.drop address r.managing }

/-- The registrations in order of address and name. -/
def registrations (r : Recorder) : List (String × String) :=
  r.registered.mergeSort fun x y =>
    ((compare x.1 y.1).then (compare x.2 y.2)).isLE

/-- The error of a registration that was not made. -/
def refusal (address interface : String) : Registered → Except BusError Unit
  | .ok => .ok ()
  | .refused => .error (.transport "mock transport refuses registrations")
  | .duplicate => .error (.duplicate (interface ++ " at " ++ address))

end Recorder

end ObjectBus
