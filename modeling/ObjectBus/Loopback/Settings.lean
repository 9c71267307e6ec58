import ObjectBus.Address
import ObjectBus.Json
import ObjectBus.Shape.Signature

/-!
# Settings of a loopback transport, and other small documents

A loopback transport has a name and a root: the address under which it publishes its nodes. Both are
text, both have a default, and the root must be an address.

Settings are read from JSON, either an object with the fields `name` and `root` (each at most once,
and no other field) or a list of up to two strings in that order. A shape is written in JSON as the
string of its signature.
-/

set_option autoImplicit false

namespace ObjectBus

/-- **The settings of a loopback transport.** -/
structure Settings where
  name : String := "local"
  root : String := "/"
  deriving DecidableEq, Repr

/-- **Why settings are refused.** -/
inductive SettingsFault where
  | json
  | invalidRoot (cause : AddressFault)
  deriving DecidableEq, Repr

/-- The wording of a refusal whose cause is the settings' own. -/
def SettingsFault.message : SettingsFault → String
  | .json => "failed to parse config"
  | .invalidRoot cause => "invalid root address: " ++ cause.message

namespace Settings

/-- The root as an address. -/
def parsedRoot (c : Settings) : Except SettingsFault Address :=
  match Address.parse c.root with
  | .error e => .error (.invalidRoot e)
  | .ok a => .ok a

/-- The value of a field that may be left out but not repeated. -/
def field? (key default : String) (fields : List (String × String)) : Option String :=
  match fields.filter fun f => f.1 == key with
  | [] => some default
  | [f] => some f.2
  | _ => none

/-- The settings in a document, whether or not the root is an address. -/
def ofDocument? : Json.Document → Option Settings
  | .text _ => none
  | .list [] => some {}
  | .list [name] => some { name }
  | .list [name, root] => some { name, root }
  | .list _ => none
  | .object fields =>
      if fields.all fun f => f.1 == "name" || f.1 == "root" then
        match field? "name" "local" fields, field? "root" "/" fields with
        | some name, some root => some { name, root }
        | _, _ => none
      else none

/-- **Reads settings from JSON** and checks the root. -/
def ofJson (text : String) : Except SettingsFault Settings :=
  match (Json.parse? text).bind ofDocument? with
  | none => .error .json
  | some c =>
      match c.parsedRoot with
      | .error e => .error e
      | .ok _ => .ok c

end Settings

/-- Writes a shape in JSON, if it has a signature. -/
def Shape.toJson? (t : Shape) : Option String := t.signature?.map Json.quote

/-- Reads a shape from JSON: one string that is a signature. -/
def Shape.ofJson? (text : String) : Option Shape :=
  match Json.parse? text with
  | some (.text s) => (Shape.ofLetters s.toList).toOption
  | _ => none

end ObjectBus
