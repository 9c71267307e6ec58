import ObjectBus.Error

/-!
# Signals — the declared shape of a notification

A signal has a name and a shape for each of its arguments. Whoever emits one must match the
declaration exactly; a mismatch is a mistake of the program, not of its input, so it panics.
-/

set_option autoImplicit false

namespace ObjectBus

/-- **A declared signal**: as many names as types. -/
structure Signal where
  names : List String
  types : List Shape
  deriving Inhabited

namespace Signal

/-- A signal of the given names and types. They must be equally many, and every type valid. -/
def make (names : List String) (types : List Shape) : Except String Signal :=
  if names.length ≠ types.length then
    .error ("signal declares " ++ names.length.repr ++ " names for " ++ types.length.repr
      ++ " arguments")
  else if types.all Shape.isValid then .ok { names, types }
  else .error "signal declares an invalid argument type"

/-- The shape of all arguments together. -/
def argsType (s : Signal) : Shape := .tuple s.types

/-- The first position where a value does not have its declared shape. -/
def mismatch? : Nat → List Value → List Shape → Option (Nat × Value × Shape)
  | position, v :: vs, t :: ts =>
      if v.matches? t then mismatch? (position + 1) vs ts else some (position, v, t)
  | _, _, _ => none

end Signal

/-- **A mistake in emitting a signal.** -/
inductive EmitError where
  | undeclared
  | count (declared emitted : Nat)
  | types (declared emitted : Shape)
  | argument (position : Nat) (declared : Shape) (emitted : Kind)
  | movedCopy
  deriving Repr

/-- The wording of a mistake in emitting a signal of an interface. -/
def EmitError.message (interface signal : String) : EmitError → String
  | .undeclared => "signal '" ++ signal ++ "' is not declared on '" ++ interface ++ "'"
  | .count declared emitted =>
      "signal '" ++ signal ++ "' on '" ++ interface ++ "' takes " ++ declared.repr
        ++ " arguments, emitted with " ++ emitted.repr
  | .types declared emitted =>
      "signal '" ++ signal ++ "' on '" ++ interface ++ "' declared as " ++ declared.display
        ++ ", emitted as " ++ emitted.display
  | .argument position declared emitted =>
      "signal '" ++ signal ++ "' on '" ++ interface ++ "' argument " ++ position.repr ++ " must be "
        ++ declared.display ++ ", emitted a " ++ emitted.word
  | .movedCopy =>
      "interface '" ++ interface ++ "' emitted '" ++ signal
        ++ "' from a moved copy; only the registered instance can emit"

namespace Signal

/-- Checks encoded arguments against the declaration: their number, then each of them. -/
def checkValues (s : Signal) (args : List Value) : Except EmitError Unit :=
  if args.length ≠ s.types.length then .error (.count s.types.length args.length)
  else
    match mismatch? 0 args s.types with
    | some (position, v, t) => .error (.argument position t v.kind)
    | none => .ok ()

/-- Checks the types of a native pack against the declaration: their number, then all at once. -/
def checkTypes (s : Signal) (types : List Shape) : Except EmitError Unit :=
  if types.length ≠ s.types.length then .error (.count s.types.length types.length)
  else if types == s.types then .ok ()
  else .error (.types s.argsType (.tuple types))

end Signal

end ObjectBus
