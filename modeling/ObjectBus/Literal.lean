import ObjectBus.Value

/-!
# Literals — values as an application writes them down

A command talks about application objects by label. A literal is a value with labels where the value
has objects; it becomes a value once every label is known to stand for an object.
-/

set_option autoImplicit false

namespace ObjectBus

/-- **A value with labels for its objects.** -/
inductive Literal where
  | scalar (kind : Scalar) (payload : kind.Carrier)
  | object (label : String)
  | vector (items : List Literal)
  | tuple (items : List Literal)
  | map (entries : List (Literal × Literal))

namespace Literal

mutual
/-- The labels in a literal, in order of mention. -/
def labels : Literal → List String
  | .scalar _ _ => []
  | .object label => [label]
  | .vector xs => labelsOfAll xs
  | .tuple xs => labelsOfAll xs
  | .map es => labelsOfEntries es

/-- The labels in a list of literals. -/
def labelsOfAll : List Literal → List String
  | [] => []
  | x :: xs => x.labels ++ labelsOfAll xs

/-- The labels in a list of entries. -/
def labelsOfEntries : List (Literal × Literal) → List String
  | [] => []
  | (k, v) :: es => k.labels ++ v.labels ++ labelsOfEntries es
end

mutual
/-- **The value of a literal**, given the object that each label stands for. The entries of a map
are stored one after the other, so of two equal keys the later wins. -/
def value (objectOf : String → ObjectId) : Literal → Value
  | .scalar s x => .scalar s x
  | .object label => .scalar .object (objectOf label)
  | .vector xs => .vector (valueOfAll objectOf xs)
  | .tuple xs => .tuple (valueOfAll objectOf xs)
  | .map es => .ofEntries (valueOfEntries objectOf es)

/-- The values of a list of literals. -/
def valueOfAll (objectOf : String → ObjectId) : List Literal → List Value
  | [] => []
  | x :: xs => x.value objectOf :: valueOfAll objectOf xs

/-- The values of a list of entries. -/
def valueOfEntries (objectOf : String → ObjectId) : List (Literal × Literal) → List (Value × Value)
  | [] => []
  | (k, v) :: es => (k.value objectOf, v.value objectOf) :: valueOfEntries objectOf es
end

end Literal

end ObjectBus
