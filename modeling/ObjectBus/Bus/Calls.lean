import ObjectBus.Bus.Handles

/-!
# Calls — what nodes ask of transports

A transport takes four calls: register an interface for a node, drop a registration, send a signal,
and set or clear what a node manages. A recorder does what it is asked, writes it to the trace and
then runs a hook, if one fits. A loopback transport works on its registry; it needs an address that
can be read, so a node whose names do not make one cannot register there.
-/

set_option autoImplicit false

namespace ObjectBus.Bus

/-- Runs the first hook of a recorder that fits a call; the hook is gone before its commands run. -/
def runHook (h : Host) (t : TransportId) (on : CallKind) (interface : Option String) (b : Bus) :
    Bus :=
  match b.recorder? t with
  | none => b
  | some r =>
      match Hook.takeFirst? on interface r.hooks with
      | none => b
      | some (commands, hooks) => h.perform commands (b.setRecorder t { r with hooks })

/-- **Registers an interface name for a node**, at the address of the node now. -/
def callAdd (h : Host) (t : TransportId) (n : NodeId) (name : String) (b : Bus) :
    Except BusError Unit × Bus :=
  match b.transport? t with
  | none => (.ok (), b)
  | some (.recorder r) =>
      let address := b.addressText n t
      let (outcome, r) := r.add address name
      let b := (b.setRecorder t r).writeTrace (.add r.label address name outcome)
      (Recorder.refusal address name outcome,
        if outcome = .ok then b.runHook h t .add (some name) else b)
  | some (.loopback l) =>
      match Address.parse (b.addressText n t) with
      | .error e => (.error (.transport e.message), b)
      | .ok address =>
          let node := (b.node? n).map fun _ => n
          match l.register b.isLiveNode address node name with
          | .error e => (.error e, b)
          | .ok l => (.ok (), b.setLoopback t l)

/-- **Drops a registration** and tells whether it was there. -/
def callDrop (h : Host) (t : TransportId) (address name : String) (b : Bus) : Bool × Bus :=
  match b.transport? t with
  | none => (false, b)
  | some (.recorder r) =>
      let (present, r) := r.drop address name
      let b := (b.setRecorder t r).writeTrace (.drop r.label address name present)
      (present, b.runHook h t .drop (some name))
  | some (.loopback l) =>
      match Address.parse address with
      | .error _ => (false, b)
      | .ok address =>
          let (present, l) := l.unregister address name
          (present, b.setLoopback t l)

/-- **Sends a signal.** -/
def callEmit (h : Host) (t : TransportId) (address interface signal : String) (args : List Value)
    (argsType : Shape) (b : Bus) : Except BusError Unit × Bus :=
  match b.transport? t with
  | none => (.ok (), b)
  | some (.recorder r) =>
      let delivered := !r.dropsSignals
      let b := b.writeTrace (.emit r.label address interface signal args argsType delivered)
      (if delivered then .ok () else .error (.transport "mock transport drops signals"),
        b.runHook h t .emit (some interface))
  | some (.loopback l) =>
      match l.emit address interface signal args argsType with
      | .error fault => (.error (.transport fault.message), b)
      | .ok l => (.ok (), b.setLoopback t l)

/-- **Sets or clears what a node manages**, at the address of the node now. -/
def callManage (h : Host) (t : TransportId) (n : NodeId) (object : Option ObjectId) (b : Bus) :
    Bus :=
  match b.transport? t with
  | none => b
  | some (.recorder r) =>
      let address := b.addressText n t
      let mark :=
        match object with
        | none => ManagedMark.nothing
        | some o => if b.isLiveObject o then .object o else .gone
      let b := (b.setRecorder t (r.manage address object)).writeTrace (.manage r.label address mark)
      b.runHook h t .manage none
  | some (.loopback l) =>
      match Address.parse (b.addressText n t) with
      | .error _ => b
      | .ok address => b.setLoopback t (l.setManaged address object)

/-- Drops a registration where nobody asks whether it was there. -/
def dropAt (h : Host) (t : TransportId) (address name : String) (b : Bus) : Bus :=
  (b.callDrop h t address name).2

/-- Drops a registration of a node, at the address of the node now. -/
def dropOf (h : Host) (n : NodeId) (name : String) (t : TransportId) (b : Bus) : Bus :=
  b.dropAt h t (b.addressText n t) name

end ObjectBus.Bus
