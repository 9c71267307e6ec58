import ObjectBus.Command

/-!
# Properties — permissioned access to shared storage

A property reads and writes a storage cell. Several properties may share a cell: each write goes to
the cell, and each read sees the last one. A property holds its cell alive unless it is made over
storage that is owned elsewhere (`Access.weak`); then the cell may be gone.

A write passes four gates, in this order: the permission, the type, the storage, the validator. The
first three refuse with an error; a write that the validator rejects is no error, it is just not
applied.
-/

set_option autoImplicit false

namespace ObjectBus

/-- Identity of a storage cell. -/
abbrev CellId := Nat

/-- **The state of a player**, whose fields are projected as properties. -/
structure Player where
  volume : UInt32 := 10
  muted : Bool := false
  title : String := "Intro"
  deriving DecidableEq, Repr, Inhabited

/-- **The content of a storage cell**: a value of one native type, or a player. -/
inductive Cell where
  | typed (type : Native) (content : Value)
  | player (state : Player)

/-- The content as one value. -/
def Cell.value : Cell → Value
  | .typed _ content => content
  | .player p =>
      .tuple [.scalar .uint32 p.volume, .scalar .bool p.muted, .scalar .string p.title]

/-- **What decides about written values**: which ones it accepts, and the objects that it keeps
alive. -/
structure Validator where
  accepts : Value → Bool
  objects : List ObjectId := []

/-- How a property uses its cell. -/
inductive Access where
  | plain
  | readOnly
  | weak
  | validated (validator : Validator)

/-- Where a property keeps its value. -/
inductive Source where
  | cell (cell : CellId) (access : Access)
  | field (player : CellId) (field : PlayerField)

/-- **A property.** -/
structure Property where
  type : Native
  permissions : Permissions
  source : Source
  /-- The id and the commands of the hook that is told of every applied write. -/
  hook : Option (String × List Command)

/-- What a validator with a bound says to a value. -/
def Comparison.accepts : Comparison → Value → Value → Bool
  | .atMost, x, bound => (x.compare bound).isLE
  | .atLeast, x, bound => (x.compare bound).isGE
  | .other, x, bound => x.compare bound != .eq

/-- The validator that compares with a bound. -/
def Comparison.validator (c : Comparison) (bound : Value) : Validator where
  accepts x := c.accepts x bound
  objects := bound.objects

/-- Whether a value may be written, once it has been decoded. -/
def Access.accepts : Access → Value → Bool
  | .validated validator, x => validator.accepts x
  | _, _ => true

namespace PlayerField

/-- The native type of a field. -/
@[reducible] def type : PlayerField → Native
  | volume => .scalar .uint32
  | muted => .scalar .bool
  | title => .scalar .string
  | unlucky => .scalar .uint32

/-- Reads a field. The unlucky field is the volume by another name. -/
def read (p : Player) : (f : PlayerField) → f.type.Carrier
  | volume => p.volume
  | muted => p.muted
  | title => p.title
  | unlucky => p.volume

/-- Writes a field. The volume is cut off at 100, through its other name it is not. -/
def write (p : Player) : (f : PlayerField) → f.type.Carrier → Player
  | volume, v => { p with volume := min v 100 }
  | muted, b => { p with muted := b }
  | title, t => { p with title := t }
  | unlucky, v => { p with volume := v }

/-- The panic that follows a write: 13 is stored as an unlucky volume and then panics. -/
def panic? : (f : PlayerField) → f.type.Carrier → Option String
  | unlucky, v => if v = 13 then some "unlucky volume" else none
  | _, _ => none

end PlayerField

/-- The storage of a property. -/
def Source.cellId : Source → CellId
  | .cell c _ => c
  | .field c _ => c

/-- Whether the property keeps its storage alive. -/
def Source.isStrong : Source → Bool
  | .cell _ .weak => false
  | _ => true

/-- Whether the property keeps this storage cell alive. -/
def Property.holdsCell (p : Property) (c : CellId) : Bool :=
  p.source.cellId == c && p.source.isStrong

/-- The objects that a property keeps alive by itself, its storage aside. -/
def Source.objects : Source → List ObjectId
  | .cell _ (.validated validator) => validator.objects
  | _ => []

/-- **What a write does that passes the gates**: it is applied and changes the cell, and possibly
panics after that, or the validator rejects it. -/
inductive Written where
  | applied (cell : Cell) (panic : Option String)
  | rejected

namespace Property

/-- A property over a cell. One that is read-only is so whatever its permissions say. -/
def overCell (type : Native) (permissions : Permissions) (cell : CellId) (access : Access)
    (hook : Option (String × List Command)) : Property :=
  { type
    permissions :=
      match access with
      | .readOnly => { permissions with writeable := false }
      | _ => permissions
    source := .cell cell access
    hook }

/-- The shape of the values of a property. -/
def shape (p : Property) : Shape := p.type.shape

/-- **Reads a property**, given its storage if that is still there. -/
def read (p : Property) (storage : Option Cell) : Except BusError Value :=
  if !p.permissions.readable then .error (.permissionDenied "property is not readable")
  else
    match storage with
    | none => .error (.nullTarget "property storage has been dropped")
    | some cell =>
        match p.source, cell with
        | .field _ f, .player state => .ok (f.type.encode (f.read state))
        | _, cell => .ok cell.value

/-- **Writes a property**, given its storage if that is still there. -/
def write (p : Property) (storage : Option Cell) (v : Value) : Except BusError Written :=
  if !p.permissions.writeable then .error (.permissionDenied "property is not writeable")
  else
    match p.source with
    | .cell _ access =>
        match p.type.decode v with
        | .error e => .error e.toBusError
        | .ok x =>
            match storage with
            | none => .error (.nullTarget "property storage has been dropped")
            | some _ =>
                let x := p.type.encode x
                if access.accepts x then .ok (.applied (.typed p.type x) none) else .ok .rejected
    | .field _ f =>
        match f.type.decode v with
        | .error e => .error e.toBusError
        | .ok x =>
            match storage with
            | some (.player state) => .ok (.applied (.player (f.write state x)) (f.panic? x))
            | _ => .error (.nullTarget "property storage has been dropped")

end Property

end ObjectBus
