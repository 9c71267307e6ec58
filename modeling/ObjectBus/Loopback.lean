import ObjectBus.Address.Trie
import ObjectBus.Forest
import ObjectBus.Loopback.Settings
import ObjectBus.Loopback.Exchange

/-!
# Loopback transport — a bus connection within the process

A loopback transport keeps the registry that a bus connection would keep: which interface names are
registered at which address, for which node; which object is managed at which address; and who
listens to signals. It answers calls and delivers signals only while it runs; registrations are kept
when it stops.

The registry refers to nodes and objects without keeping them alive. An address belongs to the node
that registered there first; a node that is gone, or has nothing registered any more, gives way.
-/

set_option autoImplicit false

namespace ObjectBus

/-- **What is registered at an address**: for which node, and under which names. The node is `none`
if it was gone already when it registered. -/
structure Occupant where
  node : Option NodeId
  interfaces : Members String

/-- **A signal as it is delivered.** -/
structure Delivery where
  address : String
  interface : String
  signal : String
  args : List Value
  argsType : Shape

/-- A listener, with the events that it has not looked at yet. -/
structure Subscriber where
  id : Nat
  /-- Whether somebody still listens. -/
  listening : Bool := true
  inbox : List Delivery := []

/-- **A loopback transport.** -/
structure Loopback where
  name : String
  root : String
  running : Bool := false
  registry : Trie Occupant := .empty
  managed : Entries Address ObjectId := []
  subscribers : List Subscriber := []

/-- Reads the address of a remote request; a text that is no address is an unknown object. -/
def Address.ofRequest (text : String) : Except Fault Address :=
  match Address.parse text with
  | .ok a => .ok a
  | .error _ => .error (.unknownObject text)

namespace Loopback

/-- A stopped transport with the given settings. -/
def make (c : Settings) : Except SettingsFault Loopback :=
  match c.parsedRoot with
  | .error e => .error e
  | .ok root => .ok { name := c.name, root := root.render }

/-- Requests are refused while the transport does not run. -/
def checkRunning (t : Loopback) : Except Fault Unit :=
  if t.running then .ok () else .error .notRunning

/-- **Registers an interface name at an address for a node.** The address must be free: not in use
by another node that is live and has names there, and without this name. -/
def register (t : Loopback) (isLive : NodeId → Bool) (address : Address)
    (node : Option NodeId) (name : String) : Except BusError Loopback :=
  let fresh : Loopback :=
    { t with registry := t.registry.put address { node, interfaces := [(name, ())] } }
  match t.registry.get? address with
  | none => .ok fresh
  | some r =>
      if r.node ≠ node then
        if r.node.any isLive && !r.interfaces.isEmpty then
          .error (.duplicate (address.render ++ " is in use by another node"))
        else .ok fresh
      else if Members.has name r.interfaces then
        .error (.duplicate (name ++ " already registered at " ++ address.render))
      else
        .ok { t with registry :=
          t.registry.put address { r with interfaces := Members.add name r.interfaces } }

/-- **Drops a name at an address** and tells whether it was there. An address without names leaves
the registry. -/
def unregister (t : Loopback) (address : Address) (name : String) : Bool × Loopback :=
  match t.registry.get? address with
  | none => (false, t)
  | some r =>
      let names := Members.remove name r.interfaces
      (Members.has name r.interfaces,
        { t with registry :=
          if names.isEmpty then t.registry.remove address
          else t.registry.put address { r with interfaces := names } })

/-- Sets or clears the object managed at an address. -/
def setManaged (t : Loopback) (address : Address) (object : Option ObjectId) :
    Loopback :=
  { t with
    managed :=
      match object with
      | some o => Entries.put address o t.managed
      | none => Entries.drop address t.managed }

/-- **The address of an object**: the first one, in address order, where it is managed. -/
def addressOf? (t : Loopback) (object : ObjectId) : Option String :=
  (t.managed.find? fun e => e.2 == object).map fun e => e.1.render

/-- **The object at an address**, if it is still there. -/
def managedAt? (t : Loopback) (isLive : ObjectId → Bool) (address : String) :
    Option ObjectId :=
  match Address.parse address with
  | .error _ => none
  | .ok a => (Entries.get? a t.managed).filter isLive

/-- A value as it leaves through this transport. -/
def exportValue (t : Loopback) (v : Value) : Except Fault Value := v.exported t.addressOf?

/-- Values as they leave through this transport. -/
def exportValues (t : Loopback) (vs : List Value) : Except Fault (List Value) :=
  Value.exportedAll t.addressOf? vs

/-- A value as it enters through this transport, for a declared shape. -/
def importValue (t : Loopback) (isLive : ObjectId → Bool) (v : Value) (shape : Shape) :
    Except Fault Value :=
  v.imported (t.managedAt? isLive) shape

/-- Argument values as they enter through this transport. The number of values is not checked here:
those beyond the declared shapes pass. -/
def importValues (t : Loopback) (isLive : ObjectId → Bool) (vs : List Value)
    (shapes : List Shape) : Except Fault (List Value) :=
  Value.importedFields (t.managedAt? isLive) vs shapes

/-- **Where a request goes**: the node that has the interface name registered at the address. -/
def resolve (t : Loopback) (address interface : String) : Except Fault (Option NodeId) :=
  match Address.ofRequest address with
  | .error e => .error e
  | .ok a =>
      match t.registry.get? a with
      | none => .error (.unknownObject address)
      | some r =>
          if Members.has interface r.interfaces then .ok r.node
          else .error (.unknownInterface interface)

/-- The addresses with a registered interface, in address order. -/
def addresses (t : Loopback) : List String := t.registry.toList.map fun e => e.1.render

/-- The interface names registered at an address. -/
def namesAt (t : Loopback) (address : String) : List String :=
  match Address.parse address with
  | .error _ => []
  | .ok a =>
      match t.registry.get? a with
      | none => []
      | some r => Members.toList r.interfaces

/-- Adds a listener. -/
def subscribe (t : Loopback) (id : Nat) : Loopback :=
  { t with subscribers := t.subscribers ++ [{ id }] }

/-- Ends the listening of a listener; it is forgotten at the next signal. -/
def unsubscribe (t : Loopback) (id : Nat) : Loopback :=
  { t with
    subscribers := t.subscribers.map fun s =>
      if s.id = id then { s with listening := false } else s }

/-- The events that a listener has not looked at. -/
def inbox (t : Loopback) (id : Nat) : List Delivery :=
  match t.subscribers.find? fun s => s.id = id with
  | some s => s.inbox
  | none => []

/-- Forgets the events that a listener has looked at. -/
def clearInbox (t : Loopback) (id : Nat) : Loopback :=
  { t with
    subscribers := t.subscribers.map fun s => if s.id = id then { s with inbox := [] } else s }

/-- Hands an event to everybody who listens, and forgets the others. -/
def deliver (t : Loopback) (event : Delivery) : Loopback :=
  { t with
    subscribers := (t.subscribers.filter (·.listening)).map fun s =>
      { s with inbox := s.inbox ++ [event] } }

/-- **Sends a signal**: it reaches every listener, or nobody if the transport does not run or an
argument has no address. -/
def emit (t : Loopback) (address interface signal : String) (args : List Value)
    (argsType : Shape) : Except Fault Loopback :=
  match t.checkRunning with
  | .error e => .error e
  | .ok () =>
      match t.exportValues args with
      | .error e => .error e
      | .ok args => .ok (t.deliver { address, interface, signal, args, argsType })

end Loopback

end ObjectBus
