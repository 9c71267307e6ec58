import ObjectBus.Error

/-!
# Exchange — objects cross as addresses

Outside the process an object is known by the address of the node that manages it. Exporting a value
puts an address in the place of every object; importing puts the object back where the declared
shape has one. Both go through a value from left to right, a map in the order of its keys and a key
before its value, and stop at the first object that has no address or address that has no object.

A map is collected anew on either way, because its keys may be objects.
-/

set_option autoImplicit false

namespace ObjectBus.Value

mutual
/-- **A value as it leaves the process**, given the address of each object. -/
def exported (addressOf : ObjectId → Option String) : Value → Except Fault Value
  | .scalar .object o =>
      match addressOf o with
      | some address => .ok (.scalar .path address)
      | none => .error (.failed "object is not managed by any node")
  | .scalar s x => .ok (.scalar s x)
  | .vector xs => (exportedAll addressOf xs).map .vector
  | .tuple xs => (exportedAll addressOf xs).map .tuple
  | .map es => (exportedEntries addressOf es).map .ofEntries

/-- Exports a list of values, one after the other. -/
def exportedAll (addressOf : ObjectId → Option String) : List Value → Except Fault (List Value)
  | [] => .ok []
  | x :: xs =>
      match x.exported addressOf with
      | .error e => .error e
      | .ok y => (exportedAll addressOf xs).map (y :: ·)

/-- Exports a list of entries, one after the other. -/
def exportedEntries (addressOf : ObjectId → Option String) :
    List (Value × Value) → Except Fault (List (Value × Value))
  | [] => .ok []
  | (k, v) :: es =>
      match k.exported addressOf with
      | .error e => .error e
      | .ok l =>
          match v.exported addressOf with
          | .error e => .error e
          | .ok w => (exportedEntries addressOf es).map ((l, w) :: ·)
end

mutual
/-- **A value as it enters the process**, given the object at each address, for a declared shape.
What does not fit the shape passes unchanged; the shape is checked elsewhere. -/
def imported (objectAt : String → Option ObjectId) : Value → Shape → Except Fault Value
  | .scalar .path p, .scalar .object =>
      match objectAt p with
      | some o => .ok (.scalar .object o)
      | none => .error (.unknownObject p)
  | .vector xs, .vector e => (importedItems objectAt xs e).map .vector
  | .tuple xs, .tuple ts =>
      if xs.length = ts.length then (importedFields objectAt xs ts).map .tuple else .ok (.tuple xs)
  | .map es, .map k v => (importedEntries objectAt es k v).map .ofEntries
  | v, _ => .ok v

/-- Imports a list of values for one declared shape. -/
def importedItems (objectAt : String → Option ObjectId) :
    List Value → Shape → Except Fault (List Value)
  | [], _ => .ok []
  | x :: xs, t =>
      match x.imported objectAt t with
      | .error e => .error e
      | .ok y => (importedItems objectAt xs t).map (y :: ·)

/-- Imports a list of values for as many declared shapes as there are; further values pass. -/
def importedFields (objectAt : String → Option ObjectId) :
    List Value → List Shape → Except Fault (List Value)
  | [], _ => .ok []
  | x :: xs, [] => .ok (x :: xs)
  | x :: xs, t :: ts =>
      match x.imported objectAt t with
      | .error e => .error e
      | .ok y => (importedFields objectAt xs ts).map (y :: ·)

/-- Imports a list of entries for the declared shapes of keys and values. -/
def importedEntries (objectAt : String → Option ObjectId) :
    List (Value × Value) → Shape → Shape → Except Fault (List (Value × Value))
  | [], _, _ => .ok []
  | (x, y) :: es, k, v =>
      match x.imported objectAt k with
      | .error e => .error e
      | .ok x =>
          match y.imported objectAt v with
          | .error e => .error e
          | .ok y => (importedEntries objectAt es k v).map ((x, y) :: ·)
end

end ObjectBus.Value
