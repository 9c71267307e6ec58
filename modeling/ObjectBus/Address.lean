/-!
# Addresses — where a node is found on a transport

An address is a list of components, each a non-empty run of ASCII letters, digits and underscores,
written with a slash before every component. Reading an address ignores empty pieces, so repeated
and trailing slashes do not matter: `/a//b/` and `/a/b` are one address. The root address is `/`.

Addresses are ordered component by component, so the addresses below one prefix stand together.
-/

set_option autoImplicit false

namespace ObjectBus

/-- **Why a text is no address.** A position counts the non-empty pieces before the bad one. -/
inductive AddressFault where
  | notAbsolute (address : String)
  | invalidCharacter (component : String) (position : Nat) (character : Char)
  | emptyComponent (position : Nat)
  deriving DecidableEq, Repr

/-- The wording of an address error. -/
def AddressFault.message : AddressFault → String
  | .notAbsolute address => "address '" ++ address ++ "' must start with '/'"
  | .invalidCharacter component position c =>
      "invalid address component '" ++ component ++ "' at position " ++ position.repr
        ++ ": invalid character '" ++ c.toString ++ "'"
  | .emptyComponent position =>
      "invalid address component '' at position " ++ position.repr ++ ": empty component"

/-- **An absolute address**, by its components from the root down. -/
structure Address where
  components : List String
  deriving DecidableEq, Repr, Inhabited

instance : Ord Address := ⟨fun a b => compare a.components b.components⟩

namespace Address

/-- Whether a character may stand in a component: an ASCII letter or digit or an underscore. -/
def isComponentChar (c : Char) : Bool := c.isAlphanum || c == '_'

/-- The pieces of a text between its slashes, empty ones included. -/
def pieces : List Char → List (List Char)
  | [] => [[]]
  | c :: cs =>
      if c = '/' then [] :: pieces cs
      else
        match pieces cs with
        | [] => [[c]]
        | p :: ps => (c :: p) :: ps

/-- The non-empty pieces of a text between its slashes. -/
def segments (cs : List Char) : List String :=
  ((pieces cs).filter fun p => !p.isEmpty).map String.ofList

/-- Checks one component: all its characters must be allowed. -/
def checkComponent (component : String) (position : Nat) : Except AddressFault Unit :=
  match component.toList.find? fun c => !isComponentChar c with
  | some c => .error (.invalidCharacter component position c)
  | none => .ok ()

/-- Checks components in order, counting from `position`. -/
def checkComponents : Nat → List String → Except AddressFault Unit
  | _, [] => .ok ()
  | position, c :: cs =>
      match checkComponent c position with
      | .error e => .error e
      | .ok () => checkComponents (position + 1) cs

/-- **Reads an address.** -/
def parse (s : String) : Except AddressFault Address :=
  match s.toList with
  | '/' :: cs =>
      match checkComponents 0 (segments cs) with
      | .error e => .error e
      | .ok () => .ok ⟨segments cs⟩
  | _ => .error (.notAbsolute s)

/-- **Writes an address**: a slash, and the components with slashes between them. -/
def render (a : Address) : String := "/" ++ "/".intercalate a.components

/-- The root address. -/
def root : Address := ⟨[]⟩

/-- Whether this is the root address. -/
def isRoot (a : Address) : Bool := a.components.isEmpty

/-- The last component, if this is not the root. -/
def last? (a : Address) : Option String := a.components.getLast?

/-- The enclosing address, if this is not the root. -/
def parent? (a : Address) : Option Address :=
  if a.components.isEmpty then none else some ⟨a.components.dropLast⟩

/-- **The address one component below**, if that is a component. -/
def child (a : Address) (component : String) : Except AddressFault Address :=
  match checkComponent component a.components.length with
  | .error e => .error e
  | .ok () =>
      if component.isEmpty then .error (.emptyComponent a.components.length)
      else .ok ⟨a.components ++ [component]⟩

/-- Whether the address is `b` or lies below it. -/
def isWithin (a b : Address) : Bool := b.components.isPrefixOf a.components

/-- Joins the root of a transport and the path of a node into the text of an address. -/
def join (transportRoot path : String) : String :=
  let stem := String.ofList (transportRoot.toList.reverse.dropWhile (· == '/')).reverse
  if stem.isEmpty && path.isEmpty then "/"
  else if path.isEmpty then stem
  else stem ++ "/" ++ path

end Address

end ObjectBus
