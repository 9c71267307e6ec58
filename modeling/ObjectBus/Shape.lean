/-!
# Shapes — the types of dynamic values

A `Shape` describes what a value looks like: a scalar, or a vector, map or tuple of shapes. One more
shape, `invalid`, stands for "no shape at all"; it is carried along so that a description can be
incomplete, but it describes no value and cannot be written down.

Scalars are a type of their own because every rule of this library treats them alike: a scalar has a
kind, and the kind fixes what its payload is.
-/

set_option autoImplicit false

namespace ObjectBus

/-- Identity of an application object. Two references are the same object iff their ids agree. -/
abbrev ObjectId := Nat

/-- **The scalar kinds**, in the order in which values of different kinds compare. -/
inductive Scalar where
  | int16
  | uint16
  | int32
  | uint32
  | int64
  | uint64
  | double
  | byte
  | bool
  | string
  | path
  | signature
  | object
  deriving DecidableEq, Repr, Inhabited

namespace Scalar

/-- **The payload of a scalar.** A double is its 64 bits, so that every NaN and both zeros are kept
apart; a path and a signature are text with a meaning; an object is its identity. -/
abbrev Carrier : Scalar → Type
  | int16 => Int16
  | uint16 => UInt16
  | int32 => Int32
  | uint32 => UInt32
  | int64 => Int64
  | uint64 => UInt64
  | double => UInt64
  | byte => UInt8
  | bool => Bool
  | string => String
  | path => String
  | signature => String
  | object => ObjectId

/-- The word for a kind in messages. -/
def word : Scalar → String
  | int16 => "int16"
  | uint16 => "uint16"
  | int32 => "int32"
  | uint32 => "uint32"
  | int64 => "int64"
  | uint64 => "uint64"
  | double => "double"
  | byte => "byte"
  | bool => "bool"
  | string => "string"
  | path => "object path"
  | signature => "signature"
  | object => "object"

end Scalar

/-- **The shape of a dynamic value.** -/
inductive Shape where
  | invalid
  | scalar (kind : Scalar)
  | vector (element : Shape)
  | map (key value : Shape)
  | tuple (fields : List Shape)
  deriving Repr, Inhabited

namespace Shape

mutual
/-- Structural equality: a vector of `int32` is not a one-field tuple of `int32`. -/
def beq : Shape → Shape → Bool
  | .invalid, .invalid => true
  | .scalar a, .scalar b => a = b
  | .vector a, .vector b => a.beq b
  | .map k v, .map l w => k.beq l && v.beq w
  | .tuple as, .tuple bs => beqAll as bs
  | _, _ => false

/-- Equality of field lists, position by position. -/
def beqAll : List Shape → List Shape → Bool
  | [], [] => true
  | a :: as, b :: bs => a.beq b && beqAll as bs
  | _, _ => false
end

instance : BEq Shape := ⟨beq⟩

mutual
/-- **Validity**: nothing in the shape is `invalid`, at any depth. -/
def isValid : Shape → Bool
  | .invalid => false
  | .scalar _ => true
  | .vector e => e.isValid
  | .map k v => k.isValid && v.isValid
  | .tuple fs => allValid fs

/-- Validity of every field. -/
def allValid : List Shape → Bool
  | [] => true
  | f :: fs => f.isValid && allValid fs
end

/-- Whether the shape is a scalar. -/
def isScalar : Shape → Bool
  | .scalar _ => true
  | _ => false

end Shape

end ObjectBus
