import ObjectBus.Bus.Attach

/-!
# Destruction — a node goes, and its children move up

A node that is destroyed unregisters its interfaces everywhere and detaches those that are still
held. Then its children take its place.

Below a parent, every descendant changes its address. So all descendants are unregistered at their
old addresses, then the children move up (`Forest.uproot`), then all are registered again at the
new ones; no refusal on the way stops the rest. Below a destroyed root the children keep their
addresses, and no transport is asked anything about them.

While transports are called, hooks may run and let go of nodes and interface values on the way. What
is being moved is therefore held until all is done, and a descendant whose own destruction has begun
is moved without being held.
-/

set_option autoImplicit false

namespace ObjectBus.Bus

/-- **A descendant that changes its address**, with what is registered for it. -/
structure Relocation where
  node : NodeId
  /-- Whether the node is held; one whose destruction has begun is not. -/
  isHeld : Bool
  servers : List TransportId
  interfaces : List InterfaceId
  managing : Option ObjectId

/-- What is registered for a descendant now. -/
def snapshot (b : Bus) (n : NodeId) : Option Relocation :=
  (b.node? n).map fun node =>
    { node := n
      isHeld := b.isLiveNode n
      servers := b.transportsOf node
      interfaces := b.instancesOf node
      managing := node.managing }

/-- Holds a descendant and what is registered for it. -/
def pin (b : Bus) (m : Relocation) : Bus :=
  let b := if m.isHeld then b.holdNode m.node else b
  (b.holdServers m.servers).holdInterfaces m.interfaces

/-- Lets go of a descendant, of its transports and of its interface values. -/
def unpin (h : Host) (m : Relocation) (b : Bus) : Bus :=
  let b := if m.isHeld then b.releaseNode h m.node else b
  (b.releaseServers m.servers).releaseInterfaces h m.interfaces

/-- Unregisters a descendant on one of its transports. -/
def withdrawOn (h : Host) (m : Relocation) (t : TransportId) (b : Bus) : Bus :=
  let address := b.addressText m.node t
  let b := m.interfaces.foldl (fun b i => b.dropAt h t address (b.nameOf i)) b
  if m.managing.isSome then b.callManage h t m.node none else b

/-- **Unregisters a descendant at its address now**, on all its transports. -/
def withdraw (h : Host) (m : Relocation) (b : Bus) : Bus :=
  m.servers.foldl (fun b t => b.withdrawOn h m t) b

/-- Registers a descendant on one of its transports; refusals are passed over. -/
def restoreOn (h : Host) (m : Relocation) (t : TransportId) (b : Bus) : Bus :=
  let b := m.interfaces.foldl (fun b i => (b.callAdd h t m.node (b.nameOf i)).2) b
  if m.managing.isSome then b.callManage h t m.node m.managing else b

/-- **Registers a descendant at its address now**, on all its transports. -/
def restore (h : Host) (m : Relocation) (b : Bus) : Bus :=
  m.servers.foldl (fun b t => b.restoreOn h m t) b

/-- Unregisters a destroyed node from one of its transports: every name it has or had, and what it
manages. -/
def leave (h : Host) (n : NodeId) (names : List String) (managing : Bool) (t : TransportId)
    (b : Bus) : Bus :=
  let address := b.addressText n t
  let b := names.foldl (fun b name => b.dropAt h t address name) b
  if managing then b.callManage h t n none else b

/-- **Destroys a node** whose last handle is gone. -/
def destroyNode (h : Host) (n : NodeId) (b : Bus) : Bus :=
  match b.node? n with
  | none => b
  | some node =>
      let servers := b.transportsOf node
      let names := Entries.keys node.interfaces
      -- the node leaves its transports
      let b := servers.foldl (fun b t => b.leave h n names node.managing.isSome t)
        (b.holdServers servers)
      -- its interface values are on their own from now on
      let held := (Entries.values node.interfaces).filter b.isLiveInterface
      let b := held.foldl (fun b i => b.setOwner i none) (b.holdInterfaces held)
      -- below a parent, the descendants leave their addresses
      let moved := if node.parent.isSome then (b.forest.descendants n).filterMap b.snapshot else []
      let b := moved.foldl (fun b m => b.withdraw h m) (moved.foldl pin b)
      -- the children move up
      let b := { b with forest := b.forest.uproot n node.name node.parent node.children }
      -- the descendants come to their new addresses
      let b := moved.foldl (fun b m => b.restore h m) b
      -- and everything is let go
      let b := moved.foldl (fun b m => b.unpin h m) b
      let b := b.releaseInterfaces h held
      b.releaseServers servers

end ObjectBus.Bus
