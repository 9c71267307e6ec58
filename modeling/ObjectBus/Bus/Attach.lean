import ObjectBus.Bus.Calls

/-!
# Attaching — interfaces come to nodes and leave them

Attaching an interface value to a node registers its name on every transport of the node, or on
none: when one transport refuses, the registrations made so far are dropped again, the last one
first. The node refers to the value without holding it. A name that belongs to a value which is gone
or was moved away is free, and is cleared first.

A value leaves its node when the node drops the name, when the value is destroyed (`release`), or
when the node is destroyed. A value that was moved out of its handle still believes to be attached;
letting it go clears the name only while no live value has it.
-/

set_option autoImplicit false

namespace ObjectBus.Bus

/-- Drops the registrations of a name on the transports where it was registered, at the address of
the node then. -/
def undoAttach (h : Host) (n : NodeId) (name : String) (done : List TransportId) (b : Bus) : Bus :=
  done.foldl (fun b t => b.dropOf h n name t) b

/-- **Registers a name on every transport in turn.** `done` holds those that have it already, the
last one first; they are undone when a transport refuses. -/
def registerOnAll (h : Host) (n : NodeId) (name : String) (done : List TransportId) :
    List TransportId → Bus → Except BusError Unit × Bus
  | [], b => (.ok (), b)
  | t :: ts, b =>
      match b.callAdd h t n name with
      | (.ok (), b) => b.registerOnAll h n name (t :: done) ts
      | (.error e, b) => (.error e, b.undoAttach h n name done)

/-- Clears a name whose value is gone: on the transports, then on the node. -/
def clearName (h : Host) (n : NodeId) (name : String) (servers : List TransportId) (b : Bus) :
    Bus :=
  let b := servers.foldl (fun b t => b.dropOf h n name t) b
  b.adjustNode n fun node => { node with interfaces := Entries.drop name node.interfaces }

/-- Registers a value on all transports and enters it at its node. -/
def enroll (h : Host) (i : InterfaceId) (n : NodeId) (name : String) (servers : List TransportId)
    (b : Bus) : Except BusError Unit × Bus :=
  match b.registerOnAll h n name [] servers with
  | (.error e, b) => (.error e, b)
  | (.ok (), b) =>
      let b := b.adjustNode n fun node =>
        { node with interfaces := Entries.put name i node.interfaces }
      (.ok (), b.setOwner i (some n))

/-- **Attaches an interface value to a node.** A value that believes to be attached already is a
mistake of the program. -/
def attach (h : Host) (i : InterfaceId) (n : NodeId) (b : Bus) :
    Except (Failure BusError) Unit × Bus :=
  match b.interface? i with
  | none => (.ok (), b)
  | some x =>
      let name := x.interface.name
      if x.owner.isSome then
        (.error (.panic ("interface '" ++ name ++ "' is already attached to a node")), b)
      else
        match b.node? n with
        | none => (.error (.error (.unknownMember .object name)), b)
        | some node =>
            let registered := Entries.get? name node.interfaces
            if registered.any b.isLiveInterface then
              (.error (.error (.duplicate
                ("interface '" ++ name ++ "' already exists on '" ++ b.forest.path n ++ "'"))), b)
            else
              let servers := b.transportsOf node
              let b := b.holdServers servers
              let b := if registered.isSome then b.clearName h n name servers else b
              let (result, b) := b.enroll h i n name servers
              (result.mapError .error, b.releaseServers servers)

/-- **Drops a name from a node** and tells whether the node had it. The value, if it is still there,
is detached. -/
def detach (h : Host) (n : NodeId) (name : String) (b : Bus) : Bool × Bus :=
  match b.node? n with
  | none => (false, b)
  | some node =>
      match Entries.get? name node.interfaces with
      | none => (false, b)
      | some i =>
          let servers := b.transportsOf node
          let b := b.adjustNode n fun node =>
            { node with interfaces := Entries.drop name node.interfaces }
          let b := servers.foldl (fun b t => b.dropOf h n name t) (b.holdServers servers)
          let b := if b.isLiveInterface i then b.setOwner i none else b
          (true, b.releaseServers servers)

/-- Whether letting a value go clears its name at a node: unless another live value has it. -/
def clearsName (b : Bus) (i : InterfaceId) (registered : InterfaceId) : Bool :=
  registered == i || !b.isLiveInterface registered

/-- **Takes a value that is destroyed off its node**, if it believes to be attached to one. -/
def release (h : Host) (i : InterfaceId) (b : Bus) : Bus :=
  match b.interface? i with
  | none => b
  | some x =>
      match x.owner with
      | none => b
      | some n =>
          let name := x.interface.name
          let b := b.setOwner i none
          match b.node? n with
          | none => b
          | some node =>
              match Entries.get? name node.interfaces with
              | none => b
              | some j =>
                  if b.clearsName i j then
                    let servers := b.transportsOf node
                    let b := b.adjustNode n fun node =>
                      { node with interfaces := Entries.drop name node.interfaces }
                    servers.foldl (fun b t => (b.dropOf h n name t).releaseServer t)
                      (b.holdServers servers)
                  else b

/-- **Destroys an interface value**: it leaves its node, and then it is gone. -/
def destroyInterface (h : Host) (i : InterfaceId) (b : Bus) : Bus :=
  let b := b.release h i
  { b with interfaces := Entries.drop i b.interfaces }

end ObjectBus.Bus
