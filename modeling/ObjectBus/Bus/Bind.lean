import ObjectBus.Bus.Calls

/-!
# Binding — nodes come to transports and leave them

Binding a node to a transport registers every attached interface there and says what the node
manages, or does nothing: when the transport refuses one registration, those made so far are dropped
again, the last one first. Unbinding drops every name and clears what the node manages.

A node may manage one object; its transports are told, and the node itself does not keep the object
alive.
-/

set_option autoImplicit false

namespace ObjectBus.Bus

/-- **Registers interface values on one transport in turn.** `done` holds those that are registered
already, the last one first; they are dropped when the transport refuses. -/
def registerAllOn (h : Host) (n : NodeId) (t : TransportId) (done : List InterfaceId) :
    List InterfaceId → Bus → Except BusError Unit × Bus
  | [], b => (.ok (), b)
  | i :: is, b =>
      match b.callAdd h t n (b.nameOf i) with
      | (.ok (), b) => b.registerAllOn h n t (i :: done) is
      | (.error e, b) =>
          let address := b.addressText n t
          (.error e, done.foldl (fun b i => b.dropAt h t address (b.nameOf i)) b)

/-- **Binds a node to a transport.** Binding it again does nothing. -/
def bind (h : Host) (n : NodeId) (t : TransportId) (b : Bus) : Except BusError Unit × Bus :=
  match b.node? n with
  | none => (.ok (), b)
  | some node =>
      if node.servers.contains t then (.ok (), b)
      else
        let is := b.instancesOf node
        match (b.holdInterfaces is).registerAllOn h n t [] is with
        | (.error e, b) => (.error e, b.releaseInterfaces h is)
        | (.ok (), b) =>
            let b := if node.managing.isSome then b.callManage h t n node.managing else b
            let b := b.adjustNode n fun node => { node with servers := node.servers ++ [t] }
            (.ok (), b.releaseInterfaces h is)

/-- **Unbinds a node from a transport** and tells whether it was bound. -/
def unbind (h : Host) (n : NodeId) (t : TransportId) (b : Bus) : Bool × Bus :=
  match b.node? n with
  | none => (false, b)
  | some node =>
      if !node.servers.contains t then (false, b)
      else
        let b := b.adjustNode n fun node => { node with servers := node.servers.filter (· != t) }
        let address := b.addressText n t
        let b := (Entries.keys node.interfaces).foldl (fun b name => b.dropAt h t address name) b
        (true, if node.managing.isSome then b.callManage h t n none else b)

/-- **Makes a node the address of an object**, or of none. -/
def manage (h : Host) (n : NodeId) (object : Option ObjectId) (b : Bus) : Bus :=
  match b.node? n with
  | none => b
  | some node =>
      let servers := b.transportsOf node
      let b := b.adjustNode n fun node => { node with managing := object }
      servers.foldl (fun b t => (b.callManage h t n object).releaseServer t) (b.holdServers servers)

end ObjectBus.Bus
