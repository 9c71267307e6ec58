import ObjectBus.Proofs.Callbacks.Members
import ObjectBus.Proofs.Callbacks.Operations
import ObjectBus.Proofs.Effect.Operations
import ObjectBus.Session.Run

/-!
# Commands, while transports call back

A command is put together from operations on nodes, values and names, so a law that these obey holds
from before to after every command (`CommandLaw.execute`), and from the start of a session to its end
(`CommandLaw.runFrom`).

Commands keep the owners of names, if the host does. A command runs commands itself, from hooks and
from callables, and so the host of every level is lawful by induction on the levels
(`Host.lawful_ofLevels`). A session then starts with an empty bus and keeps owners all the way.
-/

set_option autoImplicit false

namespace ObjectBus

namespace CommandLaw

variable {h : Host} (L : CommandLaw h)

/-! ## What commands work on -/

section Names

variable {b : Bus}

theorem nameServer (b : Bus) (name : String) (t : TransportId) :
    L.Holds b (b.nameServer name t) := by
  unfold Bus.nameServer
  dsimp only
  split
  · exact L.desk b rfl
  · exact (L.desk b (by rfl)).trans (L.releaseServer _ _)

theorem unnameInterface (b : Bus) (name : String) :
    L.Holds b (b.unnameInterface name) := L.desk b rfl

theorem onNode {name : String} {work : NodeId → Outcome × Bus}
    (hw : ∀ n, Entries.get? name b.desk.nodes = some n → L.Holds b (work n).2) :
    L.Holds b (b.onNode name work).2 := by
  unfold Bus.onNode
  split
  · exact L.refl b
  · next n hn => exact hw n hn

theorem onInterface {name : String} {work : InterfaceId → Instance → Outcome × Bus}
    (hw : ∀ i x, b.interface? i = some x → L.Holds b (work i x).2) :
    L.Holds b (b.onInterface name work).2 := by
  unfold Bus.onInterface
  split
  · exact L.refl b
  · split
    · exact L.refl b
    · next i _ _ x hi => exact hw i x hi

theorem onServer {name : String} {work : TransportId → Outcome × Bus}
    (hw : ∀ t, L.Holds b (work t).2) : L.Holds b (b.onServer name work).2 := by
  unfold Bus.onServer
  split
  · exact L.refl b
  · exact hw _

theorem usingServer {name : String} {work : TransportId → Bus → Outcome × Bus}
    (hw : ∀ t (c : Bus), L.Holds c (work t c).2) : L.Holds b (b.usingServer name work).2 :=
  L.onServer fun t =>
    ((L.holdServer b t).trans (hw t _)).trans (L.releaseServer _ t)

theorem onRecorder {name : String} {work : TransportId → Recorder → Outcome × Bus}
    (hw : ∀ t r, L.Holds b (work t r).2) : L.Holds b (b.onRecorder name work).2 := by
  refine L.onServer fun t => ?_
  split
  · exact L.refl b
  · exact hw t _

theorem onLoopback {name : String} {work : TransportId → Loopback → Outcome × Bus}
    (hw : ∀ t l, L.Holds b (work t l).2) : L.Holds b (b.onLoopback name work).2 := by
  refine L.onServer fun t => ?_
  split
  · exact L.refl b
  · exact hw t _

theorem usingLoopback {name : String}
    {work : TransportId → Loopback → Bus → Outcome × Bus}
    (hw : ∀ t l (c : Bus), L.Holds c (work t l c).2) : L.Holds b (b.usingLoopback name work).2 :=
  L.onLoopback fun t l =>
    ((L.holdServer b t).trans (hw t l _)).trans (L.releaseServer _ t)

theorem nameInterface (b : Bus) (name : String) (i : InterfaceId) :
    L.Holds b (b.nameInterface h name i) := by
  unfold Bus.nameInterface
  dsimp only
  split
  · exact L.desk b rfl
  · exact (L.desk b (by rfl)).trans (L.releaseInterface _ _)

theorem usingNode {name : String} {work : NodeId → Bus → Outcome × Bus}
    (hw : ∀ n, L.Holds (b.holdNode n) (work n (b.holdNode n)).2) :
    L.Holds b (b.usingNode h name work).2 :=
  L.onNode fun n hn => L.held hn (hw n)

theorem usingInterface {name : String}
    {work : InterfaceId → Interface → Bus → Outcome × Bus}
    (hw : ∀ i x (c : Bus), L.Holds c (work i x c).2) :
    L.Holds b (b.usingInterface h name work).2 :=
  L.onInterface fun i x _ =>
    ((L.holdInterface b i).trans (hw i x.interface _)).trans
      (L.releaseInterface _ i)

end Names

variable (b : Bus)

theorem outcomeOf (result : Except BusError Unit) :
    L.Holds b (b.outcomeOf result).2 := by
  cases result <;> exact L.refl b

theorem outcomeWith {α : Type} (result : Except (Failure BusError) α) (answer : α → Answer) : L.Holds b (b.outcomeWith result answer).2 := by
  cases result <;> exact L.refl b

theorem memberOutcome {α : Type} (result : Except BusError α) (answer : α → Answer) : L.Holds b (b.memberOutcome result answer).2 := by
  cases result <;> exact L.refl b

theorem emitOutcome (interface signal : String) (result : Except EmitError Unit) : L.Holds b (b.emitOutcome interface signal result).2 := by
  cases result <;> exact L.refl b

theorem remoteOutcome {α : Type} (result : Except (Failure Fault) α) (answer : α → Answer) : L.Holds b (b.remoteOutcome result answer).2 := by
  rcases result with (e | e) | x <;> exact L.refl b

/-! ## Commands on nodes -/

theorem plantRoot (id name : String) : L.Holds b (b.plantRoot h id name).2 :=
  L.plant b id name none [] nofun

theorem plantChild (id parent name : String) :
    L.Holds b (b.plantChild h id parent name).2 :=
  L.onNode fun p hp => L.plant b id name (some p) _ fun _ hq => ⟨parent, Option.some.inj hq ▸ hp⟩

theorem holdNodeAs (id node : String) : L.Holds b (b.holdNodeAs h id node).2 :=
  L.onNode fun _ hn => L.share hn id

theorem dropNode (node : String) : L.Holds b (b.dropNode h node).2 :=
  L.onNode fun _ hn => L.unname hn

theorem manageLabel (node : String) (object : Option String) :
    L.Holds b (b.manageLabel h node object).2 := by
  refine L.usingNode fun n => ?_
  cases object with
  | none => exact L.manage _ n none
  | some label =>
      exact (((L.mention _ label).trans (L.takeInHand _ _)).trans
        (L.manage _ n _)).trans (L.letGo _ 1)

theorem bindTo (node transport : String) : L.Holds b (b.bindTo h node transport).2 :=
  L.usingNode fun n => L.usingServer fun t c =>
    (L.bind c n t).trans (L.outcomeOf _ _)

theorem unbindFrom (node transport : String) :
    L.Holds b (b.unbindFrom h node transport).2 :=
  L.usingNode fun n => L.usingServer fun t c => L.unbind c n t

theorem dropNodeName (node name : String) : L.Holds b (b.dropName h node name).2 :=
  L.usingNode fun n => L.detach _ n name

theorem nodeInfo (node : String) : L.Holds b (b.nodeInfo node).2 := by
  refine L.onNode fun _ _ => ?_
  split <;> exact L.refl b

theorem rememberedPath (id : String) : L.Holds b (b.rememberedPath id).2 := by
  unfold Bus.rememberedPath
  split <;> exact L.refl b

/-! ## Commands on interfaces -/

theorem declare (id name : String) (functions : List (String × FunctionSpec))
    (properties : List (String × PropertySpec)) (signals : List (String × SignalSpec)) :
    L.Holds b (b.declare h id name functions properties signals).2 := by
  have hbuilt := L.buildInterface b name functions properties signals
  unfold Bus.declare
  cases hres : b.buildInterface name functions properties signals with
  | mk result c =>
      rw [hres] at hbuilt
      cases result with
      | error trouble => exact hbuilt
      | ok interface =>
          have hnew : L.Holds c (c.newInstance { interface }).2 :=
            L.newValue fun _ => Bus.inOrder_of_buildInterface hres
          exact (hbuilt.trans hnew).trans (L.nameInterface _ id _)

/-- A value that is attached by name was loose, and is handed over before it is registered. -/
theorem attachTo (iface node : String) : L.Holds b (b.attachTo h iface node).2 := by
  refine L.onInterface fun i x hi => ?_
  split
  · exact L.refl b
  · next hloose =>
      have hloose : x.isLoose = true := by simpa using hloose
      refine L.usingNode fun n => ?_
      have hi : ((b.holdNode n).unnameInterface iface).interface? i = some x := hi
      have hattach := (L.unnameInterface (b.holdNode n) iface).trans (L.attach hi hloose n)
      dsimp only
      generalize Bus.attach h i n (((b.holdNode n).unnameInterface iface).adjustInterface i
        fun x => { x with isLoose := false }) = p at hattach ⊢
      obtain ⟨_ | _, c⟩ := p
      · exact hattach.trans (L.releaseInterface c i)
      · exact hattach.trans (L.nameInterface c iface i)

theorem cloneAs (iface id : String) : L.Holds b (b.cloneAs h iface id).2 := by
  refine L.onInterface fun i x hi => ?_
  have hnew : L.Holds b (b.newInstance { interface := x.interface }).2 :=
    L.newValue fun hb => hb i x hi
  exact hnew.trans (L.nameInterface _ id _)

theorem holdAs (iface id : String) : L.Holds b (b.holdAs h iface id).2 := by
  refine L.onInterface fun i x _ => ?_
  split
  · exact L.refl b
  · exact (L.holdInterface b i).trans (L.nameInterface _ id i)

theorem releaseNamed (iface : String) : L.Holds b (b.releaseNamed h iface).2 :=
  L.onInterface fun i _ _ =>
    (L.unnameInterface b iface).trans (L.releaseInterface _ i)

theorem callNamed (iface name : String) (args : List Literal) :
    L.Holds b (b.callNamed h iface name args).2 := by
  refine L.usingInterface fun i x c => (L.evaluateAll c args).trans ?_
  dsimp only
  split
  · exact L.refl _
  · next f _ =>
      exact (((L.takeInHand _ _).trans (L.callFunction _ f _)).trans
        (L.letGo _ _)).trans (L.outcomeWith _ _ _)

theorem setNamed (iface name : String) (value : Literal) :
    L.Holds b (b.setNamed h iface name value).2 := by
  refine L.usingInterface fun i x c => (L.evaluate c value).trans ?_
  dsimp only
  split
  · exact L.refl _
  · next p _ =>
      exact (((L.takeInHand _ _).trans (L.writeProperty _ p _)).trans
        (L.letGo _ _)).trans (L.outcomeWith _ _ _)

theorem emitNamed (iface signal : String) (args : List Literal) :
    L.Holds b (b.emitNamed h iface signal args).2 :=
  L.usingInterface fun i _ c =>
    ((((L.evaluateAll c args).trans (L.takeInHand _ _)).trans
      (L.emitValues _ i signal _)).trans (L.letGo _ _)).trans
        (L.emitOutcome _ _ _ _)

theorem emitPackNamed (iface signal : String) (types : List Native)
    (args : List Literal) : L.Holds b (b.emitPackNamed h iface signal types args).2 := by
  refine L.usingInterface fun i x c => (L.evaluateAll c args).trans ?_
  dsimp only
  split
  · exact L.refl _
  · next xs _ =>
      exact (((L.takeInHand _ _).trans (L.emitPack _ i signal types xs)).trans
        (L.letGo _ _)).trans (L.emitOutcome _ _ _ _)

/-- A value that is moved out of its handle is gone, and another one takes its place with an id of its
own. -/
theorem takeOut (iface : String) : L.Holds b (b.takeOut iface).2 := by
  refine L.onInterface fun i x hi => ?_
  split
  · exact L.refl b
  · exact CallLaw.Holds.trans (L.moveOut hi) (L.desk _ rfl)

theorem editProperties (iface name : String) (spec : Option PropertySpec) :
    L.Holds b (b.editProperties iface name spec).2 := by
  refine L.onInterface fun i x hi => ?_
  cases spec with
  | none =>
      dsimp only
      split
      · exact L.refl b
      · exact L.edit hi _ fun hx => Entries.sorted_drop hx name
  | some spec =>
      -- building a property leaves the values alone
      have hi : (b.buildProperty spec).2.interface? i = some x := by
        rw [Bus.interface?, Bus.interfaces_buildProperty]
        exact hi
      have hbuilt := L.buildProperty b spec
      dsimp only
      generalize b.buildProperty spec = built at hi hbuilt ⊢
      obtain ⟨_ | p, c⟩ := built
      · exact hbuilt
      · dsimp only [Except.map]
        split
        · exact hbuilt
        · exact hbuilt.trans (L.edit hi _ fun hx => Entries.sorted_put hx name p)

/-! ## Commands on storage and objects -/

theorem makeCell (id : String) (type : Native) (init : Literal) :
    L.Holds b (b.makeCell id type init).2 := by
  refine (L.evaluate b init).trans ?_
  dsimp only [Bus.makeCell]
  split
  · exact L.refl _
  · exact L.aside rfl rfl rfl (Nat.le_succ _)

theorem peek (id : String) : L.Holds b (b.peek id).2 := by
  unfold Bus.peek
  split <;> exact L.refl b

theorem rememberObject (id label : String) :
    L.Holds b (b.rememberObject id label).2 :=
  (L.mention b label).trans (L.desk _ rfl)

theorem rememberedObject (id label : String) :
    L.Holds b (b.rememberedObject id label).2 := by
  unfold Bus.rememberedObject
  split
  · exact L.refl b
  · exact L.mention b label

/-! ## Commands on transports -/

theorem makeRecorder (id root : String) : L.Holds b (b.makeRecorder id root).2 :=
  (L.newTransport b _).trans (L.nameServer _ id _)

theorem makeLoopback (id name root : String) (stopped : Bool) :
    L.Holds b (b.makeLoopback id name root stopped).2 := by
  unfold Bus.makeLoopback
  split
  · exact L.refl b
  · exact (L.newTransport b _).trans (L.nameServer _ id _)

theorem closeTransport (name : String) : L.Holds b (b.closeTransport name).2 := by
  unfold Bus.closeTransport
  split
  · exact L.refl b
  · exact (L.desk b (by rfl)).trans (L.releaseServer _ _)

theorem introspectNamed (transport address : String) :
    L.Holds b (b.introspectNamed transport address).2 := by
  refine L.onLoopback fun _ l => ?_
  split <;> exact L.refl b

theorem endListening (id : String) : L.Holds b (b.endListening id) := by
  unfold Bus.endListening
  split
  · exact L.refl b
  · split
    · exact L.refl b
    · exact L.setLoopback b _ _

theorem listen (transport id : String) : L.Holds b (b.listen transport id).2 := by
  refine L.onLoopback fun t l => ?_
  have hnumber : L.Holds (b.setLoopback t (l.subscribe b.next))
      { b.setLoopback t (l.subscribe b.next) with next := b.next + 1 } :=
    L.aside rfl rfl rfl (Nat.le_succ _)
  exact (((L.setLoopback b t _).trans hnumber).trans (L.endListening _ id)).trans
    (L.desk _ rfl)

theorem lookAtEvents (id : String) : L.Holds b (b.lookAtEvents id).2 := by
  unfold Bus.lookAtEvents
  split
  · exact L.refl b
  · split
    · exact L.refl b
    · exact L.setLoopback b _ _

theorem addDirectly (transport node iface : String) :
    L.Holds b (b.addDirectly h transport node iface).2 :=
  L.usingServer fun t _ => L.usingNode fun n =>
    L.usingInterface fun _ x c =>
      (L.callAdd c t n x.name).trans (L.outcomeOf _ _)

theorem dropDirectly (transport address name : String) :
    L.Holds b (b.dropDirectly h transport address name).2 :=
  L.usingServer fun t c => L.callDrop c t address name

theorem emitDirectly (transport address interface signal : String)
    (args : List Literal) (argsType : Shape) :
    L.Holds b (b.emitDirectly h transport address interface signal args argsType).2 :=
  L.usingServer fun t c =>
    ((((L.evaluateAll c args).trans (L.takeInHand _ _)).trans
      (L.callEmit _ t address interface signal _ argsType)).trans
        (L.letGo _ _)).trans (L.outcomeOf _ _)

theorem callFromAfar (transport address interface name : String) (args : List Literal) :
    L.Holds b (b.callFromAfar h transport address interface name args).2 :=
  L.usingLoopback fun t l c =>
    ((((L.evaluateAll c args).trans (L.takeInHand _ _)).trans
      (L.remoteCall _ t l address interface name _)).trans (L.letGo _ _)).trans
        (L.remoteOutcome _ _ _)

theorem setFromAfar (transport address interface name : String) (value : Literal) :
    L.Holds b (b.setFromAfar h transport address interface name value).2 :=
  L.usingLoopback fun _ l c =>
    ((((L.evaluate c value).trans (L.takeInHand _ _)).trans
      (L.remoteSet _ l address interface name _)).trans (L.letGo _ _)).trans
        (L.remoteOutcome _ _ _)

/-! ## All commands -/

/-- **Every command obeys the law.** -/
theorem execute (c : Command) : L.Holds b (b.execute h c).2 := by
  cases c with
  | root id name => exact L.plantRoot b id name
  | child id parent name => exact L.plantChild b id parent name
  | holdNode id node => exact L.holdNodeAs b id node
  | dropNode node => exact L.dropNode b node
  | weakNode id node => exact L.onNode fun _ _ => L.desk b rfl
  | weakName id => exact L.rememberedPath b id
  | nodeInfo node => exact L.nodeInfo b node
  | addressText node transport =>
      exact L.onNode fun _ _ => L.onServer fun _ => L.refl b
  | manage node object => exact L.manageLabel b node object
  | bind node transport => exact L.bindTo b node transport
  | unbind node transport => exact L.unbindFrom b node transport
  | detach node name => exact L.dropNodeName b node name
  | hasInterface node name => exact L.onNode fun _ _ => L.refl b
  | declare id name functions properties signals =>
      exact L.declare b id name functions properties signals
  | attach iface node => exact L.attachTo b iface node
  | takeOut iface => exact L.takeOut b iface
  | clone iface id => exact L.cloneAs b iface id
  | hold iface id => exact L.holdAs b iface id
  | release iface => exact L.releaseNamed b iface
  | attached iface => exact L.onInterface fun _ _ _ => L.refl b
  | describe iface => exact L.onInterface fun _ _ _ => L.refl b
  | functionInfo iface name => exact L.onInterface fun _ _ _ => L.memberOutcome b _ _
  | propertyInfo iface name => exact L.onInterface fun _ _ _ => L.memberOutcome b _ _
  | signalInfo iface name => exact L.onInterface fun _ _ _ => L.memberOutcome b _ _
  | editProperties iface name property => exact L.editProperties b iface name property
  | call iface name args => exact L.callNamed b iface name args
  | get iface name => exact L.onInterface fun _ _ _ => L.memberOutcome b _ _
  | set iface name value => exact L.setNamed b iface name value
  | emit iface signal args => exact L.emitNamed b iface signal args
  | emitNative iface signal pack args => exact L.emitPackNamed b iface signal pack args
  | cell id type init => exact L.makeCell b id type init
  | player id => exact L.aside rfl rfl rfl (Nat.le_succ _)
  | peek id => exact L.peek b id
  | dropCell id => exact L.desk b rfl
  | target id step => exact L.aside rfl rfl rfl (Nat.le_succ _)
  | dropTarget id => exact L.desk b rfl
  | plainObject object => exact L.aside rfl rfl rfl (Nat.le_succ _)
  | dropObject object => exact L.desk b rfl
  | weakObject id object => exact L.rememberObject b id object
  | weakObjectInfo id object => exact L.rememberedObject b id object
  | log => exact L.desk b rfl
  | trace => exact L.desk b rfl
  | recorder id root => exact L.makeRecorder b id root
  | refuse transport names => exact L.onRecorder fun t _ => L.setRecorder b t _
  | failEmit transport fail => exact L.onRecorder fun t _ => L.setRecorder b t _
  | registered transport => exact L.onRecorder fun _ _ => L.refl b
  | managing transport => exact L.onRecorder fun _ _ => L.refl b
  | hook transport on iface commands =>
      exact L.onRecorder fun t _ => L.setRecorder b t _
  | openLoopback id name root stopped => exact L.makeLoopback b id name root stopped
  | dropTransport transport => exact L.closeTransport b transport
  | start transport => exact L.onLoopback fun t _ => L.setLoopback b t _
  | stop transport => exact L.onLoopback fun t _ => L.setLoopback b t _
  | transportInfo transport => exact L.onLoopback fun _ _ => L.refl b
  | addAt transport node iface => exact L.addDirectly b transport node iface
  | dropAt transport address interface =>
      exact L.dropDirectly b transport address interface
  | emitAt transport address interface signal args argsType =>
      exact L.emitDirectly b transport address interface signal args argsType
  | remoteCall transport address interface name args =>
      exact L.callFromAfar b transport address interface name args
  | remoteGet transport address interface name =>
      exact L.onLoopback fun _ _ => L.remoteOutcome b _ _
  | remoteSet transport address interface name value =>
      exact L.setFromAfar b transport address interface name value
  | remoteGetAll transport address interface =>
      exact L.onLoopback fun _ _ => L.remoteOutcome b _ _
  | introspect transport address => exact L.introspectNamed b transport address
  | findObject transport object => exact L.onLoopback fun _ _ => L.mention b object
  | objectAt transport address => exact L.onLoopback fun _ _ => L.refl b
  | addresses transport => exact L.onLoopback fun _ _ => L.refl b
  | namesAt transport address => exact L.onLoopback fun _ _ => L.refl b
  | subscribe transport id => exact L.listen b transport id
  | events id => exact L.lookAtEvents b id
  | unsubscribe id => exact (L.endListening b id).trans (L.desk _ rfl)

theorem executeLogged (commands : List Command) :
    L.Holds b (b.executeLogged h commands) :=
  CallLaw.foldl (fun d c => (L.execute d c).trans (L.writeLog _ _)) commands b

/-- **A law holds from the start of a session to its end.** -/
theorem runFrom (commands : List Command) : L.Holds b (Session.runFrom h commands b).2 := by
  induction commands generalizing b with
  | nil => exact L.refl b
  | cons c cs ih => exact (L.execute b c).trans (ih _)

end CommandLaw

/-- **The host of every level is lawful**: it carries commands and destructions out with the host of
the level below. -/
theorem Host.lawful_ofLevels (levels : Nat) : (Host.ofLevels levels).Lawful := by
  induction levels with
  | zero => exact Host.lawful_inert
  | succ levels ih =>
      exact ⟨fun commands b => ih.commands.executeLogged b commands,
        fun n b => Bus.advances_destroyNode ih b n,
        fun i b => Bus.advances_destroyInterface ih b i⟩

/-! ## Sessions -/

/-- The node that a value gives as its own: its owner, while that lives. A node without handles is being
destroyed, and is given by no value. -/
def Bus.nodeOf? (b : Bus) (i : InterfaceId) : Option NodeId :=
  (b.interface? i).bind fun y => y.owner.filter b.isLiveNode

namespace Session

/-- The bus after a session. -/
def busAfter (levels : Nat) (commands : List Command) : Bus :=
  (runFrom (.ofLevels levels) commands {}).2

/-- After a session no node is on its way out. -/
theorem owned_busAfter (levels : Nat) (commands : List Command) :
    (busAfter levels commands).Owned fun _ => False :=
  ((Host.lawful_ofLevels levels).commands.runFrom {} commands _ Bus.owned_empty).1

/-- What a name leads to, after a run and after a session, has this name and belongs to the node. -/
theorem entry_of_reaches {levels : Nat} {b : Bus}
    (hb : b.Reachable levels ∨ ∃ commands, busAfter levels commands = b) {n : NodeId} {k : String}
    {i : InterfaceId} {y : Instance} (hk : b.Has n k i) (hi : b.interface? i = some y) :
    y.interface.name = k ∧ y.owner = some n := by
  rcases hb with hb | ⟨commands, rfl⟩
  · obtain ⟨x, hn, hk⟩ := hk
    exact hb.sound_held.1.entry hn hk hi
  · obtain ⟨hname, -, howner | ⟨hno, -⟩⟩ := (owned_busAfter levels commands).entry hk hi
    · exact ⟨hname, howner⟩
    · exact hno.elim

/-- **A live interface has one owner**, the node that lists it: after every run, and after every session,
whatever commands transports carried out meanwhile. What a name of a node leads to, while it is live, is
a value of this name that belongs to this node; no other node has it and no other name leads to it; and
it gives this node as its own. The node is live, as all nodes are after a run; after a session a node may
be left without handles where the levels have run out. In the middle of an operation the same is true but
for nodes that are being destroyed, as `Bus.Owned` says. -/
theorem live_entry_has_one_owner {levels : Nat} {b : Bus}
    (hb : b.Reachable levels ∨ ∃ commands, busAfter levels commands = b) {n : NodeId} {k : String}
    {i : InterfaceId} (hk : b.Has n k i) (hlive : b.isLiveInterface i = true) :
    (∃ y, b.interface? i = some y ∧ y.interface.name = k ∧ y.owner = some n) ∧
    (∀ m l, b.Has m l i → m = n ∧ l = k) ∧
    (b.isLiveNode n = true → b.nodeOf? i = some n) ∧
    (b.Reachable levels → b.nodeOf? i = some n) := by
  obtain ⟨y, hi, -⟩ := Bus.exists_of_isLiveInterface hlive
  obtain ⟨hname, howner⟩ := entry_of_reaches hb hk hi
  have hnode : b.isLiveNode n = true → b.nodeOf? i = some n := by
    intro hn
    rw [Bus.nodeOf?, hi, Option.bind_some, howner, Option.filter_some, if_pos hn]
  refine ⟨⟨y, hi, hname, howner⟩, fun m l hl => ?_, hnode, fun hrun => ?_⟩
  · obtain ⟨hname', howner'⟩ := entry_of_reaches hb hl hi
    exact ⟨Option.some.inj (howner'.symm.trans howner), hname'.symm.trans hname⟩
  · obtain ⟨x, hn, -⟩ := hk
    exact hnode (hrun.sound_held.2.isLiveNode hn)

/-- Two trees and a recorder. A value is moved out of its handle and its name is attached again; on
the way the recorder attaches another value in the other tree. -/
def attachedOnTheWay : Bus :=
  busAfter 2
    [.root "n" "first", .root "m" "second", .recorder "t" "/", .bind "n" "t",
      .declare "i" "I" [] [] [], .attach "i" "n", .takeOut "i",
      .declare "j" "I" [] [] [], .declare "k" "K" [] [] [],
      .hook "t" .add none [.attach "k" "m", .unbind "n" "t"], .attach "j" "n"]

/-- All values that are live in the end have one owner. -/
theorem owners_of_attachedOnTheWay :
    (attachedOnTheWay.nodeOf? 3 = some 0 ∧ ∀ m l, attachedOnTheWay.Has m l 3 → m = 0 ∧ l = "I") ∧
      attachedOnTheWay.nodeOf? 4 = some 1 ∧
        ∀ m l, attachedOnTheWay.Has m l 4 → m = 1 ∧ l = "K" := by
  have hI : (attachedOnTheWay.node? 0).bind (fun x => Entries.get? "I" x.interfaces) = some 3 := by
    decide +kernel
  have hK : (attachedOnTheWay.node? 1).bind (fun x => Entries.get? "K" x.interfaces) = some 4 := by
    decide +kernel
  have hafter : ∃ commands, busAfter 2 commands = attachedOnTheWay := ⟨_, rfl⟩
  obtain ⟨-, hfirst, hnode, -⟩ := live_entry_has_one_owner (.inr hafter)
    (Option.bind_eq_some_iff.1 hI) (by decide +kernel)
  obtain ⟨-, hsecond, hnode', -⟩ := live_entry_has_one_owner (.inr hafter)
    (Option.bind_eq_some_iff.1 hK) (by decide +kernel)
  exact ⟨⟨hnode (by decide +kernel), hfirst⟩, hnode' (by decide +kernel), hsecond⟩

end Session

end ObjectBus
