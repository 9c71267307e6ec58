import ObjectBus.Entries
import ObjectBus.Shape

/-!
# Forest — the nodes of all trees

Every node of every tree stands in one forest, under an id that is never used again. A node knows
its parent and its children by id, so moving a subtree only changes ids. It refers to transports,
interfaces and its managed object without keeping them alive; whoever asks must check that they
still are.

A node lives as long as somebody holds a handle to it. `handles` counts them; the children of a node
hold none. When the last handle goes, the node is destroyed and its children move up
(`Forest.uproot`): to the parent of the destroyed node, or, below a root, to roots of their own that
take over the name of the destroyed one.

A child is always younger than its parent, that is, its id is greater; so walking up ends.
-/

set_option autoImplicit false

namespace ObjectBus

/-- Identity of a node. -/
abbrev NodeId := Nat

/-- Identity of a transport. -/
abbrev TransportId := Nat

/-- Identity of an interface value. A value that is moved takes a new one. -/
abbrev InterfaceId := Nat

/-- **A node**, with its links. -/
structure Node where
  name : String
  parent : Option NodeId
  children : List NodeId
  /-- The transports that the node is bound to, in binding order. -/
  servers : List TransportId
  /-- The attached interfaces by name. -/
  interfaces : Entries String InterfaceId
  /-- The object whose address this node is. -/
  managing : Option ObjectId
  /-- How many handles to the node are held. -/
  handles : Nat
  deriving Inhabited

/-- **All nodes**, by id. -/
structure Forest where
  next : NodeId := 0
  nodes : Entries NodeId Node := []

/-- Joins the name of a destroyed root and the name of its child. -/
def inheritName (parent child : String) : String :=
  if parent.isEmpty then child
  else if child.isEmpty then parent
  else parent ++ "/" ++ child

namespace Forest

/-- The node with an id, while it is in the forest. -/
def get? (f : Forest) (n : NodeId) : Option Node := Entries.get? n f.nodes

/-- Changes one node. -/
def adjust (f : Forest) (n : NodeId) (change : Node → Node) : Forest :=
  { f with nodes := Entries.adjust n change f.nodes }

/-- Whether somebody holds a handle to the node. -/
def isLive (f : Forest) (n : NodeId) : Bool :=
  match f.get? n with
  | none => false
  | some node => 0 < node.handles

/-- **A new node** with one handle, as the last child of its parent. -/
def grow (f : Forest) (name : String) (parent : Option NodeId) (servers : List TransportId) :
    NodeId × Forest :=
  let id := f.next
  let node : Node :=
    { name, parent, children := [], servers, interfaces := [], managing := none, handles := 1 }
  let f : Forest := { next := id + 1, nodes := Entries.put id node f.nodes }
  (id,
    match parent with
    | none => f
    | some p => f.adjust p fun node => { node with children := node.children ++ [id] })

/-- The non-empty names from a node up to its root. -/
def namesUp (f : Forest) (n : NodeId) : List String :=
  match f.get? n with
  | none => []
  | some node =>
      let own := if node.name.isEmpty then [] else [node.name]
      match node.parent with
      | none => own
      | some p => if p < n then own ++ f.namesUp p else own
termination_by n

/-- **The path of a node**: the non-empty names from its root down to it, joined with slashes. -/
def path (f : Forest) (n : NodeId) : String := "/".intercalate (f.namesUp n).reverse

/-- The number of links from parents to children. -/
def linkCount (f : Forest) : Nat := f.nodes.foldr (fun e links => e.2.children.length + links) 0

/-- Takes nodes from the top of a stack and pushes the children of each, the last child on top.
Every step uses up one link, which bounds the number of steps. -/
def sweep (f : Forest) : Nat → List NodeId → List NodeId
  | 0, _ => []
  | _ + 1, [] => []
  | steps + 1, n :: stack =>
      match f.get? n with
      | none => n :: f.sweep steps stack
      | some node => n :: f.sweep steps (node.children.reverse ++ stack)

/-- **The strict descendants of a node**, each before those below it, the last child first. -/
def descendants (f : Forest) (n : NodeId) : List NodeId :=
  match f.get? n with
  | none => []
  | some node => f.sweep f.linkCount node.children.reverse

/-- **Takes a node out of the forest and moves its children up.** Below a parent they come after the
parent's other children; below a destroyed root they become roots, with its name before theirs. -/
def uproot (f : Forest) (n : NodeId) (name : String) (parent : Option NodeId)
    (children : List NodeId) : Forest :=
  let f : Forest := { f with nodes := Entries.drop n f.nodes }
  let f :=
    match parent with
    | none => f
    | some p =>
        f.adjust p fun node =>
          { node with children := node.children.filter (· != n) ++ children }
  children.foldl
    (fun f c =>
      f.adjust c fun node =>
        { node with
          parent := parent
          name := if parent.isNone then inheritName name node.name else node.name })
    f

end Forest

end ObjectBus
