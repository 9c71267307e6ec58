import ObjectBus.Bus.State

/-!
# Building — from declarations to interface values

A declaration of an interface names storage cells, method targets and objects. Building it finds
them: functions first, then properties, then signals, each table in name order. The first thing that
goes wrong ends the building.

A method needs its target and a property over weak storage needs its cell at the time it is built.
Names and types that do not fit each other are a mistake of the program.
-/

set_option autoImplicit false

namespace ObjectBus.Bus

/-- Finishes a function with the names that are given for it. -/
def finishFunction (routine : Routine) (args returns : Option (List String)) :
    Except Trouble Function :=
  (Function.make routine args returns).mapError .panic

/-- **Builds a function.** -/
def buildFunction : FunctionSpec → Bus → Except Trouble Function × Bus
  | .mk args returns (.stock r), b => (finishFunction (.stock r) args returns, b)
  | .mk args returns (.identity t), b => (finishFunction (.identity t) args returns, b)
  | .mk args returns (.constant t l), b =>
      let (v, b) := b.evaluate l
      match t.decode v with
      | .error e => (.error (.value e), b)
      | .ok x => (finishFunction (.constant t x) args returns, b)
  | .mk args returns (.sink t), b => (finishFunction (.sink t) args returns, b)
  | .mk args returns .note, b => (finishFunction .note args returns, b)
  | .mk args returns (.commands cs), b => (finishFunction (.commands cs) args returns, b)
  | .mk args returns (.method m target), b =>
      match Entries.get? target b.desk.targets with
      | none => (.error (.misuse ("no target " ++ target)), b)
      | some hold =>
          if (b.target? hold.id).isNone then
            (.error (.bus (.nullTarget "method target has been dropped")), b)
          else (finishFunction (.method m hold.id) args returns, b)

/-- Finds how a property uses its cell; the bound of a validator is evaluated. -/
def buildAccess : AccessSpec → Bus → Access × Bus
  | .plain, b => (.plain, b)
  | .readOnly, b => (.readOnly, b)
  | .weak, b => (.weak, b)
  | .validated accept bound, b =>
      let (v, b) := b.evaluate bound
      (.validated (accept.validator v), b)

/-- **Builds a property.** -/
def buildProperty : PropertySpec → Bus → Except Trouble Property × Bus
  | .mk (.cell name access) permissions hook commands, b =>
      match Entries.get? name b.desk.cells with
      | none => (.error (.misuse ("no cell " ++ name)), b)
      | some hold =>
          match Entries.get? hold.id b.cells with
          | some (.typed type _) =>
              if b.isLiveCell hold.id then
                let (access, b) := b.buildAccess access
                let hook := hook.map fun id => (id, commands)
                (.ok (.overCell type permissions hold.id access hook), b)
              else
                match access with
                | .weak => (.error (.bus (.nullTarget "property storage has been dropped")), b)
                | _ => (.error (.misuse ("cell is gone: " ++ name)), b)
          | _ => (.error (.misuse ("not a cell: " ++ name)), b)
  | .mk (.field name field) permissions hook commands, b =>
      match Entries.get? name b.desk.cells with
      | none => (.error (.misuse ("no player " ++ name)), b)
      | some hold =>
          (.ok
            { type := field.type
              permissions
              source := .field hold.id field
              hook := hook.map fun id => (id, commands) }, b)

/-- Builds a signal. -/
def buildSignal (s : SignalSpec) : Except Trouble Signal :=
  (Signal.make s.names s.types).mapError .panic

/-- **Builds a table of members**, one after the other, up to the first that does not build. -/
def buildTable {σ α : Type} (build : σ → Bus → Except Trouble α × Bus) :
    List (String × σ) → Bus → Except Trouble (Entries String α) × Bus
  | [], b => (.ok [], b)
  | (name, spec) :: specs, b =>
      match build spec b with
      | (.error e, b) => (.error e, b)
      | (.ok member, b) =>
          match buildTable build specs b with
          | (.error e, b) => (.error e, b)
          | (.ok members, b) => (.ok ((name, member) :: members), b)

/-- **Builds an interface.** -/
def buildInterface (name : String) (functions : List (String × FunctionSpec))
    (properties : List (String × PropertySpec)) (signals : List (String × SignalSpec)) (b : Bus) :
    Except Trouble Interface × Bus :=
  match buildTable buildFunction (Entries.collect functions) b with
  | (.error e, b) => (.error e, b)
  | (.ok functions, b) =>
      match buildTable buildProperty (Entries.collect properties) b with
      | (.error e, b) => (.error e, b)
      | (.ok properties, b) =>
          match buildTable (fun s b => (buildSignal s, b)) (Entries.collect signals) b with
          | (.error e, b) => (.error e, b)
          | (.ok signals, b) => (.ok { name, functions, properties, signals }, b)

end ObjectBus.Bus
