import ObjectBus.Shape

/-!
# Signatures — the written form of a shape

A signature spells a shape with one letter a scalar:

    int16 n   uint16 q   int32 i   uint32 u   int64 x   uint64 t   double d
    byte  y   bool   b   string s  path   o   signature g   object o
    vector aT     map a{KV}     tuple (T…)

An object travels as the address of the node that manages it, so it shares the letter of a path, and
reading `o` gives a path. A map is only written when its key is a scalar.

Writing (`letters?`) and reading (`readOne`) both work on lists of characters. Reading one shape
returns what is left unread, so that a tuple reads its fields one after the other and the caller
decides what may follow.
-/

set_option autoImplicit false

namespace ObjectBus

/-- The letter of a scalar. -/
def Scalar.letter : Scalar → Char
  | .int16 => 'n'
  | .uint16 => 'q'
  | .int32 => 'i'
  | .uint32 => 'u'
  | .int64 => 'x'
  | .uint64 => 't'
  | .double => 'd'
  | .byte => 'y'
  | .bool => 'b'
  | .string => 's'
  | .path => 'o'
  | .signature => 'g'
  | .object => 'o'

/-- The scalar that a letter stands for. -/
def Scalar.ofLetter? : Char → Option Scalar
  | 'n' => some .int16
  | 'q' => some .uint16
  | 'i' => some .int32
  | 'u' => some .uint32
  | 'x' => some .int64
  | 't' => some .uint64
  | 'd' => some .double
  | 'y' => some .byte
  | 'b' => some .bool
  | 's' => some .string
  | 'o' => some .path
  | 'g' => some .signature
  | _ => none

/-- **Why a text is no signature.** -/
inductive SignatureFault where
  | unexpectedEnd
  | trailing
  | containerKey
  | unterminatedEntry
  | unterminatedTuple
  | unknownLetter (letter : Char)
  deriving DecidableEq, Repr

/-- The wording of a signature fault. -/
def SignatureFault.message : SignatureFault → String
  | .unexpectedEnd => "unexpected end of signature"
  | .trailing => "trailing characters"
  | .containerKey => "map key must be a primitive"
  | .unterminatedEntry => "unterminated map entry"
  | .unterminatedTuple => "unterminated tuple"
  | .unknownLetter c => "unknown type code '" ++ c.toString ++ "'"

namespace Shape

mutual
/-- **The signature of a shape**, if it has one: nothing in it is `invalid` and no map in it has a
container for its key. -/
def letters? : Shape → Option (List Char)
  | .invalid => none
  | .scalar s => some [s.letter]
  | .vector e => e.letters?.map ('a' :: ·)
  | .map k v =>
      if k.isScalar then
        match k.letters?, v.letters? with
        | some ks, some vs => some ('a' :: '{' :: (ks ++ vs ++ ['}']))
        | _, _ => none
      else none
  | .tuple fs => (allLetters? fs).map fun cs => '(' :: (cs ++ [')'])

/-- The signatures of the fields, one after the other. -/
def allLetters? : List Shape → Option (List Char)
  | [] => some []
  | f :: fs =>
      match f.letters?, allLetters? fs with
      | some cs, some ds => some (cs ++ ds)
      | _, _ => none
end

/-- The signature as text. -/
def signature? (t : Shape) : Option String := t.letters?.map String.ofList

/-- The text of a shape in messages. -/
def display (t : Shape) : String := t.signature?.getD "<invalid>"

mutual
/-- **Reads one shape** from the front of a text and returns it with the unread rest. Of two nested
calls at least one reads a letter, so a fuel of one more than twice the length of the text is never
used up. -/
def readOne : Nat → List Char → Except SignatureFault (Shape × List Char)
  | 0, _ => .error .unexpectedEnd
  | _ + 1, [] => .error .unexpectedEnd
  | fuel + 1, 'a' :: '{' :: cs =>
      match readOne fuel cs with
      | .error e => .error e
      | .ok (k, cs) =>
          if k.isScalar then
            match readOne fuel cs with
            | .error e => .error e
            | .ok (v, '}' :: cs) => .ok (.map k v, cs)
            | .ok (_, _) => .error .unterminatedEntry
          else .error .containerKey
  | fuel + 1, 'a' :: cs =>
      match readOne fuel cs with
      | .error e => .error e
      | .ok (e, cs) => .ok (.vector e, cs)
  | fuel + 1, '(' :: cs =>
      match readFields fuel cs with
      | .error e => .error e
      | .ok (fs, cs) => .ok (.tuple fs, cs)
  | _ + 1, c :: cs =>
      match Scalar.ofLetter? c with
      | some s => .ok (.scalar s, cs)
      | none => .error (.unknownLetter c)

/-- Reads the fields of a tuple up to and with its closing parenthesis. -/
def readFields : Nat → List Char → Except SignatureFault (List Shape × List Char)
  | 0, _ => .error .unterminatedTuple
  | _ + 1, [] => .error .unterminatedTuple
  | _ + 1, ')' :: cs => .ok ([], cs)
  | fuel + 1, cs =>
      match readOne fuel cs with
      | .error e => .error e
      | .ok (f, cs) =>
          match readFields fuel cs with
          | .error e => .error e
          | .ok (fs, cs) => .ok (f :: fs, cs)
end

/-- **Reads a whole text as one signature**; nothing may follow it. -/
def ofLetters (cs : List Char) : Except SignatureFault Shape :=
  match readOne (2 * cs.length + 1) cs with
  | .error e => .error e
  | .ok (t, []) => .ok t
  | .ok (_, _ :: _) => .error .trailing

mutual
/-- The shape with paths in the place of objects: what reading back a signature gives. -/
def withPaths : Shape → Shape
  | .invalid => .invalid
  | .scalar .object => .scalar .path
  | .scalar s => .scalar s
  | .vector e => .vector e.withPaths
  | .map k v => .map k.withPaths v.withPaths
  | .tuple fs => .tuple (allWithPaths fs)

/-- The fields with paths in the place of objects. -/
def allWithPaths : List Shape → List Shape
  | [] => []
  | f :: fs => f.withPaths :: allWithPaths fs
end

end Shape

end ObjectBus
