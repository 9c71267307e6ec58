import ObjectBus.Shape.Signature
import ObjectBus.Value

/-!
# Errors — what can go wrong, and in what words

Three layers have errors of their own. A `ValueError` is a value that does not decode or a shape
that cannot be read or written. A `BusError` is a failed operation on nodes, interfaces and their
members. A `Fault` is what a remote caller is told. Each layer embeds into the next one, and each
error is worded in one place.

A `Failure` is how an operation ends that does not succeed: with an error that is handed to the
caller, or with a panic that unwinds.
-/

set_option autoImplicit false

namespace ObjectBus

/-- **A value that does not decode, or a shape that has no written form.** -/
inductive ValueError where
  | typeMismatch (expected : Shape) (found : Kind)
  | arityMismatch (expected found : Nat)
  | invalidSignature (signature reason : String)
  | invalidType
  deriving Repr

/-- The wording of a value error. -/
def ValueError.message : ValueError → String
  | .typeMismatch expected found =>
      "type mismatch: expected " ++ expected.display ++ ", found " ++ found.word
  | .arityMismatch expected found =>
      "arity mismatch: expected " ++ expected.repr ++ " values, found " ++ found.repr
  | .invalidSignature signature reason => "invalid signature '" ++ signature ++ "': " ++ reason
  | .invalidType => "invalid variant type"

/-- A value that was to have another shape. -/
def Value.mismatch (v : Value) (expected : Shape) : ValueError := .typeMismatch expected v.kind

/-- Reads a signature. -/
def Shape.parse (s : String) : Except ValueError Shape :=
  match Shape.ofLetters s.toList with
  | .error fault => .error (.invalidSignature s fault.message)
  | .ok t => .ok t

/-- Writes a signature. -/
def Shape.signature (t : Shape) : Except ValueError String :=
  match t.signature? with
  | none => .error .invalidType
  | some s => .ok s

/-- What a look-up was for. -/
inductive Sought where
  | object
  | interface
  | function
  | property
  | signal
  deriving DecidableEq, Repr

/-- The word for a kind of member in messages. -/
def Sought.word : Sought → String
  | .object => "object"
  | .interface => "interface"
  | .function => "function"
  | .property => "property"
  | .signal => "signal"

/-- **A failed operation on nodes, interfaces and members.** What a callable or a transport fails
with is theirs to word, so it is kept as text. -/
inductive BusError where
  | typeMismatch (expected : Shape) (found : Kind)
  | argumentCount (expected found : Nat)
  | permissionDenied (reason : String)
  | unknownMember (kind : Sought) (name : String)
  | duplicate (what : String)
  | nullTarget (what : String)
  | value (error : ValueError)
  | callable (text : String)
  | transport (text : String)
  deriving Repr

/-- The wording of a bus error. -/
def BusError.message : BusError → String
  | .typeMismatch expected found =>
      "type mismatch: expected " ++ expected.display ++ ", found " ++ found.word
  | .argumentCount expected found =>
      "argument count mismatch: expected " ++ expected.repr ++ ", found " ++ found.repr
  | .permissionDenied reason => "permission denied: " ++ reason
  | .unknownMember kind name => "unknown " ++ kind.word ++ ": " ++ name
  | .duplicate what => "duplicate registration: " ++ what
  | .nullTarget what => "null target: " ++ what
  | .value error => error.message
  | .callable text => "callable failed: " ++ text
  | .transport text => "transport error: " ++ text

/-- A value error as a bus error: mismatches of type and of count have a place of their own. -/
def ValueError.toBusError : ValueError → BusError
  | .typeMismatch expected found => .typeMismatch expected found
  | .arityMismatch expected found => .argumentCount expected found
  | e => .value e

/-- **What a remote caller is told** when a call is not answered. -/
inductive Fault where
  | unknownObject (address : String)
  | unknownInterface (name : String)
  | unknownMethod (name : String)
  | unknownProperty (name : String)
  | invalidSignature (text : String)
  | invalidArgs (text : String)
  | accessDenied (reason : String)
  | notRunning
  | failed (text : String)
  deriving DecidableEq, Repr

/-- The wording of a fault. -/
def Fault.message : Fault → String
  | .unknownObject address => "no object at '" ++ address ++ "'"
  | .unknownInterface name => "no interface '" ++ name ++ "'"
  | .unknownMethod name => "no method '" ++ name ++ "'"
  | .unknownProperty name => "no property '" ++ name ++ "'"
  | .invalidSignature text => "invalid signature: " ++ text
  | .invalidArgs text => "invalid arguments: " ++ text
  | .accessDenied reason => "access denied: " ++ reason
  | .notRunning => "transport is not running"
  | .failed text => "failed: " ++ text

/-- The conventional name of a fault on the wire. -/
def Fault.wireName : Fault → String
  | .unknownObject _ => "org.freedesktop.DBus.Error.UnknownObject"
  | .unknownInterface _ => "org.freedesktop.DBus.Error.UnknownInterface"
  | .unknownMethod _ => "org.freedesktop.DBus.Error.UnknownMethod"
  | .unknownProperty _ => "org.freedesktop.DBus.Error.UnknownProperty"
  | .invalidSignature _ => "org.freedesktop.DBus.Error.InvalidSignature"
  | .invalidArgs _ => "org.freedesktop.DBus.Error.InvalidArgs"
  | .accessDenied _ => "org.freedesktop.DBus.Error.PropertyReadOnly"
  | .notRunning => "org.freedesktop.DBus.Error.Disconnected"
  | .failed _ => "org.freedesktop.DBus.Error.Failed"

/-- A bus error as a fault. Wrong types, wrong counts, permissions and unknown members are told
apart; everything else is a failure with the error's own words. -/
def BusError.toFault : BusError → Fault
  | e@(.typeMismatch _ _) => .invalidSignature e.message
  | e@(.argumentCount _ _) => .invalidArgs e.message
  | .permissionDenied reason => .accessDenied reason
  | .unknownMember .object name => .unknownObject name
  | .unknownMember .interface name => .unknownInterface name
  | .unknownMember .function name => .unknownMethod name
  | .unknownMember .property name => .unknownProperty name
  | .unknownMember .signal name => .failed ("unknown signal " ++ name)
  | e => .failed e.message

/-- **How an operation ends that does not succeed**: with an error for its caller, or with a panic
that unwinds past it. -/
inductive Failure (ε : Type) where
  | error (cause : ε)
  | panic (text : String)
  deriving Repr

end ObjectBus
