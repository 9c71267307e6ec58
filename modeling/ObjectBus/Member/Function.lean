import ObjectBus.Command

/-!
# Functions — native callables behind positional values

A function has argument names, result names and a routine. The routine fixes the native types of
arguments and results, so the shapes of a function are never stated twice: a call decodes the
argument values as the argument pack, runs the routine on the native values and encodes the results
(`invokeTyped`). A call that does not decode never reaches the routine.

A tuple that a routine returns gives one result a field; any other type gives one result.
-/

set_option autoImplicit false

namespace ObjectBus

/-- Identity of a method target. -/
abbrev TargetId := Nat

/-- **What a built callable does.** -/
inductive Routine where
  | stock (routine : Stock)
  | identity (type : Native)
  | constant (type : Native) (value : type.Carrier)
  | sink (type : Native)
  | note
  | commands (list : List Command)
  | method (method : Method) (target : TargetId)

namespace Stock

/-- The native types of the arguments. -/
@[reducible] def args : Stock → List Native
  | cut => [.scalar .string, .scalar .uint32]
  | fail => [.scalar .int32]
  | double => [.scalar .int32]
  | check => [.scalar .bool]
  | divide => [.scalar .int32, .scalar .int32]
  | answer => []
  | nothing => []
  | boom => [.scalar .string]
  | sum => [.vector (.scalar .int64)]
  | lookup => [.map (.scalar .string) (.scalar .uint64), .scalar .string]
  | wide3 => [.scalar .byte, .vector (.scalar .string), .scalar .double]
  | wide4 => [.scalar .int16, .scalar .uint16, .scalar .int64, .scalar .uint64]
  | wide5 => [.scalar .bool, .scalar .bool, .scalar .bool, .scalar .bool, .scalar .bool]
  | wide6 =>
      [.scalar .string, .scalar .path, .scalar .signature, .map (.scalar .string) (.scalar .int32),
        .tuple [.scalar .int32, .scalar .string], .vector (.vector (.scalar .int64))]
  | wide7 =>
      [.scalar .string, .scalar .string, .scalar .string, .scalar .string, .scalar .string,
        .scalar .string, .scalar .string]
  | wide8 =>
      [.scalar .byte, .scalar .int16, .scalar .uint16, .scalar .int32, .scalar .uint32,
        .scalar .int64, .scalar .uint64, .scalar .double]
  | title => [.scalar .object]
  | titles => [.vector (.scalar .object)]

/-- The native types of the results. -/
@[reducible] def returns : Stock → List Native
  | cut => [.scalar .string, .scalar .string]
  | fail => [.scalar .int32]
  | double => [.scalar .int32]
  | check => []
  | divide => [.scalar .int32, .scalar .int32]
  | answer => [.scalar .uint32]
  | nothing => []
  | boom => []
  | sum => [.scalar .int64]
  | lookup => [.scalar .uint64]
  | wide3 => [.scalar .double, .vector (.scalar .string), .scalar .byte]
  | wide4 => [.scalar .uint64, .scalar .int64, .scalar .uint16, .scalar .int16]
  | wide5 => [.scalar .uint32]
  | wide6 => args wide6
  | wide7 => [.scalar .string]
  | wide8 => args wide8
  | title => [.scalar .string]
  | titles => [.vector (.scalar .string)]

/-- The usual names of the arguments. -/
def argNames : Stock → List String
  | cut => ["input", "at"]
  | fail => ["code"]
  | double => ["x"]
  | check => ["ok"]
  | divide => ["a", "b"]
  | answer => []
  | nothing => []
  | boom => ["text"]
  | sum => ["items"]
  | lookup => ["map", "key"]
  | wide3 => ["a", "b", "c"]
  | wide4 => ["a", "b", "c", "d"]
  | wide5 => ["a", "b", "c", "d", "e"]
  | wide6 => ["a", "b", "c", "d", "e", "f"]
  | wide7 => ["a", "b", "c", "d", "e", "f", "g"]
  | wide8 => ["a", "b", "c", "d", "e", "f", "g", "h"]
  | title => ["object"]
  | titles => ["objects"]

/-- The usual names of the results. -/
def returnNames : Stock → List String
  | cut => ["head", "tail"]
  | fail => ["code"]
  | double => ["doubled"]
  | check => []
  | divide => ["quotient", "remainder"]
  | answer => ["answer"]
  | nothing => []
  | boom => []
  | sum => ["sum"]
  | lookup => ["value"]
  | wide3 => ["c", "b", "a"]
  | wide4 => ["d", "c", "b", "a"]
  | wide5 => ["n"]
  | wide6 => ["a", "b", "c", "d", "e", "f"]
  | wide7 => ["joined"]
  | wide8 => ["a", "b", "c", "d", "e", "f", "g", "h"]
  | title => ["title"]
  | titles => ["titles"]

/-- **Runs a stock routine**, given the title of every object. -/
def run (titleOf : ObjectId → String) :
    (r : Stock) → Native.Pack r.args → Except (Failure String) (Native.Pack r.returns)
  | cut, (input, n, ()) =>
      .ok (String.ofList (input.toList.take n.toNat), String.ofList (input.toList.drop n.toNat), ())
  | fail, (code, ()) => .error (.error ("code " ++ code.toInt.repr))
  | double, (x, ()) =>
      if x < 0 then .error (.error ("negative input " ++ x.toInt.repr)) else .ok (2 * x, ())
  | check, (ok, ()) => if ok then .ok () else .error (.error "check failed")
  | divide, (a, b, ()) =>
      if b = 0 then .error (.error "division by zero") else .ok (a / b, a % b, ())
  | answer, () => .ok (42, ())
  | nothing, () => .ok ()
  | boom, (text, ()) => if text = "quiet" then .ok () else .error (.panic text)
  | sum, (items, ()) => .ok (items.foldl (· + ·) 0, ())
  | lookup, (entries, key, ()) =>
      match Entries.get? key entries with
      | some value => .ok (value, ())
      | none => .error (.error ("no entry for " ++ key))
  | wide3, (a, b, c, ()) => .ok (c, b, a, ())
  | wide4, (a, b, c, d, ()) => .ok (d, c, b, a, ())
  | wide5, (a, b, c, d, e, ()) => .ok (UInt32.ofNat ([a, b, c, d, e].count true), ())
  | wide6, xs => .ok xs
  | wide7, (a, b, c, d, e, f, g, ()) => .ok ("|".intercalate [a, b, c, d, e, f, g], ())
  | wide8, xs => .ok xs
  | title, (object, ()) => .ok (titleOf object, ())
  | titles, (objects, ()) => .ok (objects.map titleOf, ())

end Stock

/-- **The state of a method target**: its step never changes, its total is added to. -/
structure Target where
  step : UInt32
  total : UInt32 := 0
  deriving DecidableEq, Repr, Inhabited

namespace Method

/-- The native types of the arguments. -/
@[reducible] def args : Method → List Native
  | scale => [.scalar .uint32]
  | step => []
  | add => [.scalar .uint32, .scalar .uint32]
  | strict => [.scalar .uint32]

/-- The native types of the results. -/
@[reducible] def returns : Method → List Native
  | scale => [.scalar .uint32]
  | step => [.scalar .uint32]
  | add => [.scalar .uint32, .scalar .uint32]
  | strict => []

/-- The usual names of the arguments. -/
def argNames : Method → List String
  | scale => ["n"]
  | step => []
  | add => ["n", "times"]
  | strict => ["n"]

/-- The usual names of the results. -/
def returnNames : Method → List String
  | scale => ["scaled"]
  | step => ["step"]
  | add => ["before", "after"]
  | strict => []

/-- **Runs a method on its target.** Arithmetic wraps. -/
def run (t : Target) :
    (m : Method) → Native.Pack m.args → Except (Failure String) (Native.Pack m.returns × Target)
  | scale, (n, ()) => .ok ((t.step * n, ()), t)
  | step, () => .ok ((t.step, ()), t)
  | add, (n, times, ()) =>
      let after := t.total + n * times
      .ok ((t.total, after, ()), { t with total := after })
  | strict, (n, ()) =>
      if t.step = 0 then
        .error (.panic "attempt to calculate the remainder with a divisor of zero")
      else if n % t.step = 0 then .ok ((), t)
      else
        .error (.error (n.toNat.repr ++ " is not a multiple of " ++ t.step.toNat.repr))

end Method

namespace Native

/-- The positional results of a native value. -/
def toResults : (t : Native) → t.Carrier → Pack t.results
  | .scalar _, x => (x, ())
  | .vector _, x => (x, ())
  | .map _ _, x => (x, ())
  | .tuple _, xs => xs

end Native

/-- The names of `n` results that have no names of their own. -/
def resultNames (n : Nat) : List String := (List.range n).map fun i => "r" ++ i.repr

namespace Routine

/-- The native types of the arguments. -/
@[reducible] def args : Routine → List Native
  | stock r => r.args
  | identity t => [t]
  | constant _ _ => []
  | sink t => [t]
  | note => [.scalar .int32, .scalar .string, .scalar .bool]
  | commands _ => []
  | method m _ => m.args

/-- The native types of the results. -/
@[reducible] def returns : Routine → List Native
  | stock r => r.returns
  | identity t => t.results
  | constant t _ => t.results
  | sink _ => []
  | note => []
  | commands _ => []
  | method m _ => m.returns

/-- The usual names of the arguments. -/
def argNames : Routine → List String
  | stock r => r.argNames
  | identity _ => ["x"]
  | constant _ _ => []
  | sink _ => ["x"]
  | note => ["a", "b", "c"]
  | commands _ => []
  | method m _ => m.argNames

/-- The usual names of the results. -/
def returnNames : Routine → List String
  | stock r => r.returnNames
  | identity t => resultNames t.results.length
  | constant t _ => resultNames t.results.length
  | sink _ => []
  | note => []
  | commands _ => []
  | method m _ => m.returnNames

/-- The objects that a routine keeps alive. -/
def objects : Routine → List ObjectId
  | constant t x => (t.encode x).objects
  | _ => []

end Routine

/-- **A function**: a routine with names for its arguments and results. -/
structure Function where
  argNames : List String
  returnNames : List String
  routine : Routine

namespace Function

/-- The shapes of the arguments. -/
def argTypes (f : Function) : List Shape := Native.shapes f.routine.args

/-- The shapes of the results. -/
def returnTypes (f : Function) : List Shape := Native.shapes f.routine.returns

/-- **A function with the given names**, or the usual ones. There must be as many names as there are
arguments and results. -/
def make (routine : Routine) (args returns : Option (List String)) : Except String Function :=
  let argNames := args.getD routine.argNames
  let returnNames := returns.getD routine.returnNames
  if argNames.length ≠ routine.args.length then
    .error ("function declares " ++ argNames.length.repr ++ " argument names for "
      ++ routine.args.length.repr ++ " arguments")
  else if returnNames.length ≠ routine.returns.length then
    .error ("function declares " ++ returnNames.length.repr ++ " return names for "
      ++ routine.returns.length.repr ++ " results")
  else .ok { argNames, returnNames, routine }

end Function

/-- How a native callable fails: with the words of its own error, or with a panic. -/
def Failure.ofCallable : Failure String → Failure BusError
  | .error text => .error (.callable text)
  | .panic text => .panic text

/-- **Calls a native callable with values.** The values must be as many as the arguments, each must
decode, and the target, if the callable is a method, must be there; only then does it run, on the
native values, and its results are encoded. The state `σ` is whatever the callable works on, and
`target` finds what it is a method of. -/
def invokeTyped {σ τ : Type} (args returns : List Native) (target : σ → Option τ)
    (run : τ → Native.Pack args → σ → Except (Failure String) (Native.Pack returns) × σ)
    (values : List Value) (s : σ) : Except (Failure BusError) (List Value) × σ :=
  match Native.decodePack args values with
  | .error e => (.error (.error e.toBusError), s)
  | .ok xs =>
      match target s with
      | none => (.error (.error (.nullTarget "method target has been dropped")), s)
      | some t =>
          match run t xs s with
          | (.error e, s) => (.error e.ofCallable, s)
          | (.ok ys, s) => (.ok (Native.encodePack returns ys), s)

end ObjectBus
