import ObjectBus.Error

/-!
# Native types — typed values behind dynamic ones

`Native` names the types of native code that can cross the wire: the scalars, and vectors, maps and
tuples of such types. `Native.Carrier` is the type that a name stands for, and every native type has

* a shape (`Native.shape`),
* an encoding into values, which never fails (`Native.encode`), and
* a decoding, which fails at the first place where the value is not what the type encodes to
  (`Native.decode`): left to right, a map in the order of its keys, a key before its value.

A **pack** is a list of native types taken as positions: call arguments, results, the payload of a
signal. Decoding a pack checks the number of values before it looks at any of them, while a tuple
value of the wrong length is a type mismatch of the whole tuple.

A native map is given by its entries; they stand in the order of their encoded keys.
-/

set_option autoImplicit false

namespace ObjectBus

/-- **The native types.** -/
inductive Native where
  | scalar (kind : Scalar)
  | vector (element : Native)
  | map (key value : Native)
  | tuple (fields : List Native)
  deriving Repr, Inhabited

namespace Native

mutual
/-- The type that a native type stands for. -/
@[reducible] def Carrier : Native → Type
  | .scalar s => s.Carrier
  | .vector t => List t.Carrier
  | .map k v => List (k.Carrier × v.Carrier)
  | .tuple ts => Pack ts

/-- The type of the values of a pack: one value for each position. -/
@[reducible] def Pack : List Native → Type
  | [] => Unit
  | t :: ts => t.Carrier × Pack ts
end

mutual
/-- The shape of the values that a native type encodes to. -/
def shape : Native → Shape
  | .scalar s => .scalar s
  | .vector t => .vector t.shape
  | .map k v => .map k.shape v.shape
  | .tuple ts => .tuple (shapes ts)

/-- The shapes of a pack, position by position. -/
def shapes : List Native → List Shape
  | [] => []
  | t :: ts => t.shape :: shapes ts
end

mutual
/-- **Encodes a native value.** -/
def encode : (t : Native) → t.Carrier → Value
  | .scalar s, x => .scalar s x
  | .vector t, xs => .vector (xs.map fun x => t.encode x)
  | .map k v, es => .ofEntries (es.map fun e => (k.encode e.1, v.encode e.2))
  | .tuple ts, xs => .tuple (encodePack ts xs)

/-- Encodes a pack, position by position. -/
def encodePack : (ts : List Native) → Pack ts → List Value
  | [], _ => []
  | t :: ts, (x, xs) => t.encode x :: encodePack ts xs
end

/-- Native values are ordered as their encodings are. -/
@[reducible] def order (t : Native) : Ord t.Carrier :=
  ⟨fun x y => (t.encode x).compare (t.encode y)⟩

mutual
/-- **Decodes a native value**, or reports the first mismatch. -/
def decode : (t : Native) → Value → Except ValueError t.Carrier
  | .scalar s, v =>
      match v with
      | .scalar r x => if h : r = s then .ok (h ▸ x) else .error (v.mismatch (.scalar s))
      | _ => .error (v.mismatch (.scalar s))
  | .vector t, v =>
      match v with
      | .vector xs => xs.mapM fun x => t.decode x
      | _ => .error (v.mismatch (.vector t.shape))
  | .map k w, v =>
      match v with
      | .map es =>
          match es.mapM fun e => do return (← k.decode e.1, ← w.decode e.2) with
          | .error e => .error e
          | .ok es => .ok (@Entries.collect _ _ k.order es)
      | _ => .error (v.mismatch (.map k.shape w.shape))
  | .tuple ts, v =>
      match v with
      | .tuple xs =>
          if xs.length = ts.length then decodeFields ts xs
          else .error (v.mismatch (.tuple (shapes ts)))
      | _ => .error (v.mismatch (.tuple (shapes ts)))

/-- Decodes as many values as there are positions, from left to right. -/
def decodeFields : (ts : List Native) → List Value → Except ValueError (Pack ts)
  | [], _ => .ok ()
  | t :: ts, vs =>
      match vs with
      | [] => .error (.arityMismatch (ts.length + 1) 0)
      | v :: vs =>
          match t.decode v with
          | .error e => .error e
          | .ok x =>
              match decodeFields ts vs with
              | .error e => .error e
              | .ok xs => .ok (x, xs)
end

/-- **Decodes a pack**: the number of values is checked before any of them. -/
def decodePack (ts : List Native) (vs : List Value) : Except ValueError (Pack ts) :=
  if vs.length = ts.length then decodeFields ts vs
  else .error (.arityMismatch ts.length vs.length)

/-- The positional results of a native value: one for each field of a tuple, else the value. -/
def results : Native → List Native
  | .tuple ts => ts
  | t => [t]

end Native

end ObjectBus
