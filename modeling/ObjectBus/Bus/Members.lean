import ObjectBus.Bus.Handles

/-!
# Members at work — calls, reads and writes

A function runs its routine on the bus: most routines only compute, some write to the log, a method
changes its target, and a list of commands enters the bus again. A property reads and writes its
cell; after an applied write its hook is told, which writes to the log and may run commands too.
-/

set_option autoImplicit false

namespace ObjectBus

namespace Routine

/-- What a routine is a method of. -/
@[reducible] def Subject : Routine → Type
  | method _ _ => Target
  | _ => Unit

/-- Finds what a routine is a method of, while it is there. -/
def subject? : (r : Routine) → Bus → Option r.Subject
  | method _ target, b => b.target? target
  | stock _, _ => some ()
  | identity _, _ => some ()
  | constant _ _, _ => some ()
  | sink _, _ => some ()
  | note, _ => some ()
  | commands _, _ => some ()

/-- **Runs a routine on native arguments.** -/
def run (h : Host) :
    (r : Routine) → r.Subject → Native.Pack r.args → Bus →
      Except (Failure String) (Native.Pack r.returns) × Bus
  | stock r, _, xs, b => (r.run b.titleOf xs, b)
  | identity t, _, (x, ()), b => (.ok (t.toResults x), b)
  | constant t x, _, _, b => (.ok (t.toResults x), b)
  | sink t, _, (x, ()), b => (.ok (), b.writeLog (.sink (t.encode x)))
  | note, _, (number, text, flag, ()), b => (.ok (), b.writeLog (.note number text flag))
  | commands list, _, _, b => (.ok (), h.perform list b)
  | method m target, t, xs, b =>
      match m.run t xs with
      | .error e => (.error e, b)
      | .ok (ys, t) => (.ok ys, { b with targets := Entries.put target t b.targets })

end Routine

/-- **A native callable, as a function wraps it**: the native types of its arguments and results, what
it is a method of, as long as that is there, and what it does. -/
structure Callable where
  args : List Native
  returns : List Native
  Subject : Type
  subject? : Bus → Option Subject
  run : Subject → Native.Pack args → Bus → Except (Failure String) (Native.Pack returns) × Bus

namespace Callable

/-- The shapes of the arguments. -/
def argTypes (c : Callable) : List Shape := Native.shapes c.args

/-- Calls it with values. -/
def invoke (c : Callable) (values : List Value) (b : Bus) :
    Except (Failure BusError) (List Value) × Bus :=
  invokeTyped c.args c.returns c.subject? c.run values b

end Callable

/-- The callable behind a function. -/
def Function.callable (h : Host) (f : Function) : Callable where
  args := f.routine.args
  returns := f.routine.returns
  Subject := f.routine.Subject
  subject? := f.routine.subject?
  run := f.routine.run h

namespace Bus

/-- **Calls a function with values.** -/
def callFunction (h : Host) (f : Function) (args : List Value) (b : Bus) :
    Except (Failure BusError) (List Value) × Bus :=
  (f.callable h).invoke args b

/-- **Reads a property.** -/
def readProperty (b : Bus) (p : Property) : Except BusError Value :=
  p.read (b.cell? p.source.cellId)

/-- Replaces the content of a cell. -/
def setCell (b : Bus) (c : CellId) (cell : Cell) : Bus :=
  { b with cells := Entries.put c cell b.cells }

/-- Tells the hook of a property about an applied write. -/
def runPropertyHook (h : Host) (p : Property) (v : Value) (b : Bus) : Bus :=
  match p.hook with
  | none => b
  | some (id, commands) => h.perform commands (b.writeLog (.hook id v))

/-- **Writes a property** and tells whether the value was applied. -/
def writeProperty (h : Host) (p : Property) (v : Value) (b : Bus) :
    Except (Failure BusError) Bool × Bus :=
  match p.write (b.cell? p.source.cellId) v with
  | .error e => (.error (.error e), b)
  | .ok .rejected => (.ok false, b)
  | .ok (.applied cell none) =>
      (.ok true, (b.setCell p.source.cellId cell).runPropertyHook h p v)
  | .ok (.applied cell (some text)) => (.error (.panic text), b.setCell p.source.cellId cell)

end Bus

end ObjectBus
