/-!
# JSON text — the strict reading of strings, lists and objects of strings

The settings of a transport and the written form of a shape are small JSON documents: one string, a
list of strings or an object of strings. This module reads exactly those, by the strict grammar:
blanks are space, tab, line feed and carriage return; nothing may follow the document; a string
holds no raw control character; an escape is one of eight letters or four hexadecimal digits; and a
surrogate escape stands only as the first half of a pair with its second half behind it.

A reader takes a list of characters and returns what it read with the unread rest.
-/

set_option autoImplicit false

namespace ObjectBus.Json

/-- Whether a character is a blank between tokens. -/
def isBlank (c : Char) : Bool := c == ' ' || c == '\t' || c == '\n' || c == '\r'

/-- The text without its leading blanks. -/
def skipBlanks (cs : List Char) : List Char := cs.dropWhile isBlank

/-- The value of a hexadecimal digit of either case. -/
def hexDigit? (c : Char) : Option Nat :=
  if '0' ≤ c ∧ c ≤ '9' then some (c.toNat - '0'.toNat)
  else if 'a' ≤ c ∧ c ≤ 'f' then some (c.toNat - 'a'.toNat + 10)
  else if 'A' ≤ c ∧ c ≤ 'F' then some (c.toNat - 'A'.toNat + 10)
  else none

/-- The code unit that four hexadecimal digits spell. -/
def hexUnit? (a b c d : Char) : Option Nat :=
  match hexDigit? a, hexDigit? b, hexDigit? c, hexDigit? d with
  | some a, some b, some c, some d => some (((a * 16 + b) * 16 + c) * 16 + d)
  | _, _, _, _ => none

/-- The character of a one-letter escape. -/
def escape? : Char → Option Char
  | '"' => some '"'
  | '\\' => some '\\'
  | '/' => some '/'
  | 'b' => some '\x08'
  | 'f' => some '\x0c'
  | 'n' => some '\n'
  | 'r' => some '\r'
  | 't' => some '\t'
  | _ => none

/-- The character that two surrogate units make, if the first is a high and the second a low one. -/
def pair? (high low : Nat) : Option Char :=
  if 0xD800 ≤ high ∧ high < 0xDC00 ∧ 0xDC00 ≤ low ∧ low < 0xE000 then
    some (Char.ofNat (0x10000 + (high - 0xD800) * 0x400 + (low - 0xDC00)))
  else none

/-- Reads the rest of a string, after its opening quote. -/
def readTail? : List Char → Option (List Char × List Char)
  | [] => none
  | '"' :: cs => some ([], cs)
  | '\\' :: 'u' :: a :: b :: c :: d :: '\\' :: 'u' :: e :: f :: g :: h :: cs =>
      match hexUnit? a b c d with
      | none => none
      | some unit =>
          if 0xD800 ≤ unit ∧ unit < 0xE000 then
            match hexUnit? e f g h with
            | none => none
            | some low =>
                match pair? unit low, readTail? cs with
                | some x, some (xs, rest) => some (x :: xs, rest)
                | _, _ => none
          else
            match readTail? ('\\' :: 'u' :: e :: f :: g :: h :: cs) with
            | none => none
            | some (xs, rest) => some (Char.ofNat unit :: xs, rest)
  | '\\' :: 'u' :: a :: b :: c :: d :: cs =>
      match hexUnit? a b c d with
      | none => none
      | some unit =>
          if 0xD800 ≤ unit ∧ unit < 0xE000 then none
          else
            match readTail? cs with
            | none => none
            | some (xs, rest) => some (Char.ofNat unit :: xs, rest)
  | '\\' :: c :: cs =>
      match escape? c, readTail? cs with
      | some x, some (xs, rest) => some (x :: xs, rest)
      | _, _ => none
  | c :: cs =>
      if c.toNat < 0x20 ∨ c = '\\' then none
      else
        match readTail? cs with
        | none => none
        | some (xs, rest) => some (c :: xs, rest)
termination_by cs => cs.length

/-- Reads a string after any blanks. -/
def readString? (cs : List Char) : Option (String × List Char) :=
  match skipBlanks cs with
  | '"' :: cs =>
      match readTail? cs with
      | none => none
      | some (xs, rest) => some (String.ofList xs, rest)
  | _ => none

/-- Reads the items of a list, after an item was promised by a bracket or a comma. -/
def readItems? : Nat → List Char → Option (List String × List Char)
  | 0, _ => none
  | fuel + 1, cs =>
      match readString? cs with
      | none => none
      | some (x, cs) =>
          match skipBlanks cs with
          | ',' :: cs =>
              match readItems? fuel cs with
              | none => none
              | some (xs, rest) => some (x :: xs, rest)
          | ']' :: cs => some ([x], cs)
          | _ => none

/-- Reads the fields of an object, after a field was promised by a brace or a comma. -/
def readFields? : Nat → List Char → Option (List (String × String) × List Char)
  | 0, _ => none
  | fuel + 1, cs =>
      match readString? cs with
      | none => none
      | some (key, cs) =>
          match skipBlanks cs with
          | ':' :: cs =>
              match readString? cs with
              | none => none
              | some (x, cs) =>
                  match skipBlanks cs with
                  | ',' :: cs =>
                      match readFields? fuel cs with
                      | none => none
                      | some (xs, rest) => some ((key, x) :: xs, rest)
                  | '}' :: cs => some ([(key, x)], cs)
                  | _ => none
          | _ => none

/-- **A document made of strings.** -/
inductive Document where
  | text (value : String)
  | list (items : List String)
  | object (fields : List (String × String))
  deriving Repr

/-- Reads a document and returns the rest. -/
def readDocument? (cs : List Char) : Option (Document × List Char) :=
  match skipBlanks cs with
  | '[' :: cs =>
      match skipBlanks cs with
      | ']' :: cs => some (.list [], cs)
      | cs => (readItems? (cs.length + 1) cs).map fun r => (.list r.1, r.2)
  | '{' :: cs =>
      match skipBlanks cs with
      | '}' :: cs => some (.object [], cs)
      | cs => (readFields? (cs.length + 1) cs).map fun r => (.object r.1, r.2)
  | cs => (readString? cs).map fun r => (.text r.1, r.2)

/-- **Reads a whole text as one document** of strings, or refuses it. -/
def parse? (s : String) : Option Document :=
  match readDocument? s.toList with
  | some (doc, rest) => if (skipBlanks rest).isEmpty then some doc else none
  | none => none

/-- Writes a text that needs no escape as a JSON string. -/
def quote (s : String) : String := "\"" ++ s ++ "\""

end ObjectBus.Json

