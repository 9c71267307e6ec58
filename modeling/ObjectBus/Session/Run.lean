import ObjectBus.Session.Interfaces
import ObjectBus.Session.Stores
import ObjectBus.Session.Transports

/-!
# Sessions — carrying out commands

A session starts with an empty bus and carries out commands one after the other. Each command has an
outcome; trouble with one does not stop the rest.

Commands may run inside commands, from hooks and from callables, and what is let go of last is
destroyed inside the operation that lets it go. Each such step goes one level deeper. The host of a
level carries steps out with the host of the level below, and on level zero nothing happens. The
number of levels grows with the number of commands, so that only commands which call themselves
without end get to the lowest one.
-/

set_option autoImplicit false

namespace ObjectBus

namespace Bus

/-- **Carries out a command.** -/
def execute (h : Host) (b : Bus) : Command → Outcome × Bus
  | .root id name => b.plantRoot h id name
  | .child id parent name => b.plantChild h id parent name
  | .holdNode id node => b.holdNodeAs h id node
  | .dropNode node => b.dropNode h node
  | .weakNode id node => b.rememberNode id node
  | .weakName id => b.rememberedPath id
  | .nodeInfo node => b.nodeInfo node
  | .addressText node transport =>
      b.onNode node fun n => b.onServer transport fun t => (.done (.text (b.addressText n t)), b)
  | .manage node object => b.manageLabel h node object
  | .bind node transport => b.bindTo h node transport
  | .unbind node transport => b.unbindFrom h node transport
  | .detach node name => b.dropName h node name
  | .hasInterface node name => b.attachedName node name
  | .declare id name functions properties signals =>
      b.declare h id name functions properties signals
  | .attach iface node => b.attachTo h iface node
  | .takeOut iface => b.takeOut iface
  | .clone iface id => b.cloneAs h iface id
  | .hold iface id => b.holdAs h iface id
  | .release iface => b.releaseNamed h iface
  | .attached iface => b.attachment iface
  | .describe iface => b.describeNamed iface
  | .functionInfo iface name => b.functionInfo iface name
  | .propertyInfo iface name => b.propertyInfo iface name
  | .signalInfo iface name => b.signalInfo iface name
  | .editProperties iface name property => b.editProperties iface name property
  | .call iface name args => b.callNamed h iface name args
  | .get iface name => b.getNamed iface name
  | .set iface name value => b.setNamed h iface name value
  | .emit iface signal args => b.emitNamed h iface signal args
  | .emitNative iface signal pack args => b.emitPackNamed h iface signal pack args
  | .cell id type init => b.makeCell id type init
  | .player id => b.makePlayer id
  | .peek id => b.peek id
  | .dropCell id => b.dropCell id
  | .target id step => b.makeTarget id step
  | .dropTarget id => b.dropTarget id
  | .plainObject object => b.makePlainObject object
  | .dropObject object => b.dropObject object
  | .weakObject id object => b.rememberObject id object
  | .weakObjectInfo id object => b.rememberedObject id object
  | .log => b.takeLog
  | .trace => b.takeTrace
  | .recorder id root => b.makeRecorder id root
  | .refuse transport names => b.refuse transport names
  | .failEmit transport fail => b.failEmit transport fail
  | .registered transport => b.registeredOn transport
  | .managing transport => b.managedOn transport
  | .hook transport on iface commands => b.addHook transport on iface commands
  | .openLoopback id name root stopped => b.makeLoopback id name root stopped
  | .dropTransport transport => b.closeTransport transport
  | .start transport => b.setRunning transport true
  | .stop transport => b.setRunning transport false
  | .transportInfo transport => b.transportInfo transport
  | .addAt transport node iface => b.addDirectly h transport node iface
  | .dropAt transport address interface => b.dropDirectly h transport address interface
  | .emitAt transport address interface signal args argsType =>
      b.emitDirectly h transport address interface signal args argsType
  | .remoteCall transport address interface name args =>
      b.callFromAfar h transport address interface name args
  | .remoteGet transport address interface name => b.getFromAfar transport address interface name
  | .remoteSet transport address interface name value =>
      b.setFromAfar h transport address interface name value
  | .remoteGetAll transport address interface => b.getAllFromAfar transport address interface
  | .introspect transport address => b.introspectNamed transport address
  | .findObject transport object => b.addressOfLabel transport object
  | .objectAt transport address => b.objectAtAddress transport address
  | .addresses transport => b.addressesOf transport
  | .namesAt transport address => b.interfacesAtAddress transport address
  | .subscribe transport id => b.listen transport id
  | .events id => b.lookAtEvents id
  | .unsubscribe id => b.stopListening id

/-- Carries out commands inside an operation; each outcome is written to the log. -/
def executeLogged (h : Host) (commands : List Command) (b : Bus) : Bus :=
  commands.foldl
    (fun b c =>
      let (outcome, b) := b.execute h c
      b.writeLog (.step outcome))
    b

end Bus

/-- **The host with a number of levels** below it. -/
def Host.ofLevels : Nat → Host
  | 0 => .inert
  | levels + 1 =>
      let h := ofLevels levels
      { perform := fun commands b => b.executeLogged h commands
        destroyNode := fun n b => b.destroyNode h n
        destroyInterface := fun i b => b.destroyInterface h i }

namespace Session

/-- Carries out commands from a bus on, with their outcomes. -/
def runFrom (h : Host) : List Command → Bus → List Outcome × Bus
  | [], b => ([], b)
  | c :: cs, b =>
      let (outcome, b) := b.execute h c
      let (outcomes, b) := runFrom h cs b
      (outcome :: outcomes, b)

/-- How many levels a session takes for its commands. -/
def levels (commands : List Command) : Nat := 64 + 4 * commandsSize commands

/-- **Carries out the commands of a session**, from an empty bus on. -/
def run (commands : List Command) : List Outcome × Bus :=
  runFrom (.ofLevels (levels commands)) commands {}

end Session

end ObjectBus
