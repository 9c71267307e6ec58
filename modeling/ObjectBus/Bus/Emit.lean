import ObjectBus.Bus.Calls

/-!
# Emission — a signal goes out

A signal of an attached interface goes to every live transport that the owning node is bound to, in
binding order, each with the address of the node there. All addresses are computed before the first
transport is called, and no failure keeps the signal from the others. A detached interface emits
nothing.

Only the registered value emits. A moved copy, which still believes to be attached while its name at
the node belongs to another value or to one that is gone, is a mistake of the program; a copy whose
node or whose name there is gone emits nothing.
-/

set_option autoImplicit false

namespace ObjectBus.Bus

/-- Sends a signal to transports in turn, and lets each go after it. -/
def fanOut (h : Host) (interface signal : String) (args : List Value) (argsType : Shape)
    (targets : List (TransportId × String)) (b : Bus) : Bus :=
  targets.foldl
    (fun b target =>
      (b.callEmit h target.1 target.2 interface signal args argsType).2.releaseServer target.1)
    b

/-- **Sends a signal out**, from the node that the value believes to be attached to. -/
def send (h : Host) (i : InterfaceId) (signal : String) (args : List Value) (argsType : Shape)
    (b : Bus) : Except EmitError Unit × Bus :=
  match b.interface? i with
  | none => (.ok (), b)
  | some x =>
      match x.owner with
      | none => (.ok (), b)
      | some n =>
          match b.node? n with
          | none => (.ok (), b)
          | some node =>
              match Entries.get? x.interface.name node.interfaces with
              | none => (.ok (), b)
              | some j =>
                  if j == i && b.isLiveInterface i then
                    let targets := (b.transportsOf node).map fun t => (t, b.addressText n t)
                    (.ok (), (b.holdServers (targets.map (·.1))).fanOut h x.interface.name signal
                      args argsType targets)
                  else (.error .movedCopy, b)

/-- **Emits a signal with encoded arguments.** They must match the declaration. -/
def emitValues (h : Host) (i : InterfaceId) (signal : String) (args : List Value) (b : Bus) :
    Except EmitError Unit × Bus :=
  match b.interface? i with
  | none => (.ok (), b)
  | some x =>
      match Entries.get? signal x.interface.signals with
      | none => (.error .undeclared, b)
      | some s =>
          match s.checkValues args with
          | .error e => (.error e, b)
          | .ok () => b.send h i signal args s.argsType

/-- **Emits a signal with a native pack**, whose types must be the declared ones. -/
def emitPack (h : Host) (i : InterfaceId) (signal : String) (types : List Native)
    (args : Native.Pack types) (b : Bus) : Except EmitError Unit × Bus :=
  match b.interface? i with
  | none => (.ok (), b)
  | some x =>
      match Entries.get? signal x.interface.signals with
      | none => (.error .undeclared, b)
      | some s =>
          match s.checkTypes (Native.shapes types) with
          | .error e => (.error e, b)
          | .ok () => b.send h i signal (Native.encodePack types args) s.argsType

end ObjectBus.Bus
