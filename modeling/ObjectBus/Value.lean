import ObjectBus.Entries
import ObjectBus.Shape

/-!
# Values — what crosses between native code and the wire

A `Value` is a scalar with its payload, or a vector, tuple or map of values. Values are ordered, and
the order separates them: two values compare equal iff they are structurally the same. So a value
can key a map, and a map keeps its entries sorted by that order.

Integer widths are different kinds, a string is not a path, and doubles are compared by the IEEE
total order of their bits, under which every bit pattern has its own place.
-/

set_option autoImplicit false

namespace ObjectBus

/-- **A dynamic value.** The entries of a map stand in increasing key order (`Value.ofEntries`). -/
inductive Value where
  | scalar (kind : Scalar) (payload : kind.Carrier)
  | vector (items : List Value)
  | tuple (items : List Value)
  | map (entries : List (Value × Value))

instance : Inhabited Value := ⟨.tuple []⟩

/-- **Which alternative a value is.** -/
inductive Kind where
  | scalar (kind : Scalar)
  | vector
  | tuple
  | map
  deriving DecidableEq, Repr

/-- The word for a kind in messages. -/
def Kind.word : Kind → String
  | .scalar s => s.word
  | .vector => "vector"
  | .tuple => "tuple"
  | .map => "map"

/-- The place of a kind in the order of values: values of different kinds compare by it. -/
def Kind.rank : Kind → Nat
  | .scalar s => s.ctorIdx
  | .vector => 13
  | .tuple => 14
  | .map => 15

/-- The weight of the sign bit among the bits of a double. -/
def signWeight : Nat := 0x8000000000000000

/-- **The place of a double in the IEEE total order.** Bits without the sign count up from zero;
with the sign they count down from minus one, so that `-0.0` stands just below `0.0`, and the NaNs
of either sign stand outside the infinity of that sign. -/
def totalOrderKey (bits : UInt64) : Int :=
  if bits.toNat < signWeight then (bits.toNat : Int) else -1 - ((bits.toNat : Int) - signWeight)

/-- The order of two payloads of one kind. -/
def Scalar.compare : (s : Scalar) → s.Carrier → s.Carrier → Ordering
  | .int16, a, b => Ord.compare a b
  | .uint16, a, b => Ord.compare a b
  | .int32, a, b => Ord.compare a b
  | .uint32, a, b => Ord.compare a b
  | .int64, a, b => Ord.compare a b
  | .uint64, a, b => Ord.compare a b
  | .double, a, b => Ord.compare (totalOrderKey a) (totalOrderKey b)
  | .byte, a, b => Ord.compare a b
  | .bool, a, b => Ord.compare a b
  | .string, a, b => Ord.compare a b
  | .path, a, b => Ord.compare a b
  | .signature, a, b => Ord.compare a b
  | .object, a, b => Ord.compare a b

namespace Value

/-- The kind of a value. -/
def kind : Value → Kind
  | .scalar s _ => .scalar s
  | .vector _ => .vector
  | .tuple _ => .tuple
  | .map _ => .map

mutual
/-- **The order of values.** Values of one kind compare by payload, containers item by item with the
shorter first; values of different kinds compare by kind. -/
def compare : Value → Value → Ordering
  | .scalar s x, .scalar r y =>
      if h : s = r then s.compare x (h ▸ y) else Ord.compare s.ctorIdx r.ctorIdx
  | .vector xs, .vector ys => compareAll xs ys
  | .tuple xs, .tuple ys => compareAll xs ys
  | .map xs, .map ys => compareEntries xs ys
  | v, w => Ord.compare v.kind.rank w.kind.rank

/-- Lists of values compare at the first difference, and the shorter is first. -/
def compareAll : List Value → List Value → Ordering
  | [], [] => .eq
  | [], _ :: _ => .lt
  | _ :: _, [] => .gt
  | x :: xs, y :: ys => (x.compare y).then (compareAll xs ys)

/-- Lists of entries compare at the first difference, the key before its value. -/
def compareEntries : List (Value × Value) → List (Value × Value) → Ordering
  | [], [] => .eq
  | [], _ :: _ => .lt
  | _ :: _, [] => .gt
  | (k, x) :: xs, (l, y) :: ys => ((k.compare l).then (x.compare y)).then (compareEntries xs ys)
end

instance : Ord Value := ⟨compare⟩

/-- Values are equal iff they compare equal. -/
instance : BEq Value := ⟨fun v w => v.compare w = .eq⟩

/-- A map value of the given entries; of two equal keys the later wins. -/
def ofEntries (es : List (Value × Value)) : Value := .map (Entries.collect es)

/-- The values in increasing order; equal ones keep their places. -/
def sort (vs : List Value) : List Value := vs.mergeSort fun v w => (v.compare w).isLE

/-- Whether the value is a vector, tuple or map. -/
def isContainer : Value → Bool
  | .scalar _ _ => false
  | _ => true

/-- The text of a string, path or signature. -/
def text? : Value → Option String
  | .scalar .string s => some s
  | .scalar .path s => some s
  | .scalar .signature s => some s
  | _ => none

mutual
/-- **Whether a value has a shape.** Every item, field, key and map value must have its shape too,
and no value has a shape with `invalid` in it, not even an empty container. -/
def matches? : Value → Shape → Bool
  | .scalar s _, .scalar r => s = r
  | .vector xs, .vector e => e.isValid && allMatch xs e
  | .tuple xs, .tuple ts => fieldsMatch xs ts
  | .map es, .map k v => k.isValid && v.isValid && entriesMatch es k v
  | _, _ => false

/-- Whether all items have one shape. -/
def allMatch : List Value → Shape → Bool
  | [], _ => true
  | x :: xs, t => x.matches? t && allMatch xs t

/-- Whether the fields have the shapes, one to one. -/
def fieldsMatch : List Value → List Shape → Bool
  | [], [] => true
  | x :: xs, t :: ts => x.matches? t && fieldsMatch xs ts
  | _, _ => false

/-- Whether all keys have the one shape and all values the other. -/
def entriesMatch : List (Value × Value) → Shape → Shape → Bool
  | [], _, _ => true
  | (x, y) :: es, k, v => x.matches? k && y.matches? v && entriesMatch es k v
end

mutual
/-- The objects that a value refers to, at any depth, in order. -/
def objects : Value → List ObjectId
  | .scalar .object o => [o]
  | .scalar _ _ => []
  | .vector xs => objectsOfAll xs
  | .tuple xs => objectsOfAll xs
  | .map es => objectsOfEntries es

/-- The objects that a list of values refers to. -/
def objectsOfAll : List Value → List ObjectId
  | [] => []
  | x :: xs => x.objects ++ objectsOfAll xs

/-- The objects that a list of entries refers to. -/
def objectsOfEntries : List (Value × Value) → List ObjectId
  | [] => []
  | (k, v) :: es => k.objects ++ v.objects ++ objectsOfEntries es
end

mutual
/-- **The maps of a value are maps**: at every depth their entries are sorted by key. -/
def WellFormed : Value → Prop
  | .scalar _ _ => True
  | .vector xs => AllWellFormed xs
  | .tuple xs => AllWellFormed xs
  | .map es => Entries.Sorted es ∧ EntriesWellFormed es

/-- Well-formedness of every item. -/
def AllWellFormed : List Value → Prop
  | [] => True
  | x :: xs => x.WellFormed ∧ AllWellFormed xs

/-- Well-formedness of every key and map value. -/
def EntriesWellFormed : List (Value × Value) → Prop
  | [] => True
  | (k, v) :: es => k.WellFormed ∧ v.WellFormed ∧ EntriesWellFormed es
end

end Value

end ObjectBus
