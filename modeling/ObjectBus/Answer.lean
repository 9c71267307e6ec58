import ObjectBus.Interface
import ObjectBus.Loopback
import ObjectBus.Recorder

/-!
# Answers — what a command gives back

A command that is done gives an answer; one that is not gives its trouble, which is an error of one
of the layers, a panic, or a command that makes no sense because a name in it stands for nothing.

The log keeps what callables and hooks wrote, together with the outcomes of the commands that they
ran.
-/

set_option autoImplicit false

namespace ObjectBus

/-- **Why a command is not done.** -/
inductive Trouble where
  | bus (error : BusError)
  | value (error : ValueError)
  | fault (fault : Fault)
  | config (error : SettingsFault)
  | panic (text : String)
  /-- A description holds a shape that has no signature. -/
  | unwritable
  /-- A name in the command stands for nothing that the command could work on. -/
  | misuse (text : String)

/-- A failure of the bus as trouble. -/
def Failure.trouble : Failure BusError → Trouble
  | .error e => .bus e
  | .panic text => .panic text

/-- **What is to be seen of a node.** -/
structure NodeReport where
  name : String
  path : String
  isRoot : Bool
  /-- The path of the parent. -/
  parent : Option String
  /-- The names of the children. -/
  children : List String
  /-- The roots of the transports. -/
  servers : List String
  /-- The names of the attached interfaces. -/
  interfaces : List String
  managed : Option ObjectId

mutual
/-- **What a command gives back.** -/
inductive Answer where
  | nothing
  | flag (value : Bool)
  | text (value : String)
  | texts (list : List String)
  | object (id : ObjectId)
  | value (value : Value)
  | values (list : List Value)
  | named (list : List (String × Value))
  | registrations (list : List (String × String))
  | node (report : NodeReport)
  | attachment (attached : Bool) (node : Option String)
  | interface (info : Interface.Outline)
  | address (info : Address.Outline)
  | function (function : Function)
  | property (property : Property)
  | signal (signal : Signal)
  | edited (had : Bool) (names : List String)
  | weak (expired : Bool) (label : Option ObjectId) (refersTo : Bool)
  | transport (name root : String) (running : Bool)
  | events (list : List Delivery)
  | log (entries : List LogEntry)
  | trace (entries : List TraceEntry)

/-- **How a command ends.** -/
inductive Outcome where
  | done (answer : Answer)
  | failed (trouble : Trouble)

/-- **An entry of the log.** -/
inductive LogEntry where
  | sink (value : Value)
  | note (number : Int32) (text : String) (flag : Bool)
  | hook (id : String) (value : Value)
  | step (outcome : Outcome)
end

instance : Inhabited Answer := ⟨.nothing⟩
instance : Inhabited Outcome := ⟨.done .nothing⟩

end ObjectBus
