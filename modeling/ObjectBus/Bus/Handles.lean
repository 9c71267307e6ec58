import ObjectBus.Bus.State

/-!
# Handles — taking hold and letting go

Whoever works on a node, an interface value or a transport holds a handle to it meanwhile. Letting
the last handle go destroys a node or an interface value; a transport has nothing to do then.

What happens when a node or an interface value is destroyed, and which commands a hook runs, is more
than the bus can say at this place: those operations use handles and hooks themselves. They are
given as a `Host`, and `Host.inert` is the one for which nothing happens.
-/

set_option autoImplicit false

namespace ObjectBus

/-- **What happens where control leaves an operation**: running commands, and destroying what is no
longer held. -/
structure Host where
  perform : List Command → Bus → Bus
  destroyNode : NodeId → Bus → Bus
  destroyInterface : InterfaceId → Bus → Bus

/-- The host for which nothing happens. -/
def Host.inert : Host := ⟨fun _ b => b, fun _ b => b, fun _ b => b⟩

namespace Bus

/-- Takes a handle to a node. -/
def holdNode (b : Bus) (n : NodeId) : Bus :=
  b.adjustNode n fun node => { node with handles := node.handles + 1 }

/-- **Lets a handle to a node go**, and destroys the node if it was the last one. -/
def releaseNode (h : Host) (n : NodeId) (b : Bus) : Bus :=
  let b := b.adjustNode n fun node => { node with handles := node.handles - 1 }
  if b.isLiveNode n then b else h.destroyNode n b

/-- Takes a handle to an interface value. -/
def holdInterface (b : Bus) (i : InterfaceId) : Bus :=
  b.adjustInterface i fun x => { x with handles := x.handles + 1 }

/-- Takes a handle to each of a list of interface values. -/
def holdInterfaces (b : Bus) (is : List InterfaceId) : Bus := is.foldl holdInterface b

/-- **Lets a handle to an interface value go**, and destroys the value if it was the last one. -/
def releaseInterface (h : Host) (i : InterfaceId) (b : Bus) : Bus :=
  let b := b.adjustInterface i fun x => { x with handles := x.handles - 1 }
  if b.isLiveInterface i then b else h.destroyInterface i b

/-- Lets a handle to each of a list of interface values go, in order. -/
def releaseInterfaces (h : Host) (is : List InterfaceId) (b : Bus) : Bus :=
  is.foldl (fun b i => b.releaseInterface h i) b

/-- Takes a handle to a transport. -/
def holdServer (b : Bus) (t : TransportId) : Bus :=
  b.adjustServer t fun s => { s with handles := s.handles + 1 }

/-- Takes a handle to each of a list of transports. -/
def holdServers (b : Bus) (ts : List TransportId) : Bus := ts.foldl holdServer b

/-- Lets a handle to a transport go. -/
def releaseServer (b : Bus) (t : TransportId) : Bus :=
  b.adjustServer t fun s => { s with handles := s.handles - 1 }

/-- Lets a handle to each of a list of transports go. -/
def releaseServers (b : Bus) (ts : List TransportId) : Bus := ts.foldl releaseServer b

end Bus

end ObjectBus
