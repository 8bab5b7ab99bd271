import Domotics.Engine.Process
import Domotics.Rule.Parser

/-!
The service that keeps an engine on a bus: it holds the registered actions and the present rule set,
starts the engine once it has both a bus and a platform, and hands the events of devices to it.
-/

namespace Domotics

/-- A service in its world. The engine of the world counts only while the service is running. -/
structure Service where
  world : World
  hasPlatform : Bool := true
  hasBus : Bool := false
  running : Bool := false
  subscribed : Bool := false
  actions : ActionRegistry := []
  ruleSet : Option RuleSet := none
deriving Inhabited

namespace Service

def filter : EventFilter := { kinds := [.command, .update, .statusChange] }

/-- Starts a new engine with the present rule set, and subscribes to the bus unless that has been
done. A rule set that cannot be loaded leaves the new engine empty. -/
def start (s : Service) : Service × Result Unit :=
  let world := { s.world with
    platform := { s.world.platform with attached := true }
    engine := {} }
  let s := { s with world, running := true }
  let subscribe (s : Service) : Service :=
    if s.subscribed then s
    else { s with
      subscribed := true
      world := { s.world with bus := s.world.bus.subscribe filter .rules } }
  match s.ruleSet with
  | none => (subscribe s, .ok ())
  | some rs =>
    match s.world.load rs none with
    | (world, .ok ()) => (subscribe { s with world }, .ok ())
    | (world, .error fault) => ({ s with world }, .error fault)

def attach (s : Service) : Service × Result Unit :=
  let s := { s with hasBus := true }
  if s.hasPlatform then s.start else (s, .ok ())

def attachToNewBus (s : Service) : Service × Result Unit :=
  { s with world := { s.world with bus := {} } }.attach

def setPlatform (s : Service) : Service × Result Unit :=
  let s := { s with hasPlatform := true }
  if s.hasBus then s.start else (s, .ok ())

def registerAction (s : Service) (name : String) (a : Action) : Result Service :=
  if name = "" then Result.invalid .emptyActionName
  else .ok { s with actions := s.actions ++ [(name, a)] }

def loadRuleSet (s : Service) (rs : RuleSet) : Service × Result Unit :=
  if !s.running then ({ s with ruleSet := some rs }, .ok ())
  else match s.world.load rs none with
    | (world, .ok ()) => ({ s with world, ruleSet := some rs }, .ok ())
    | (world, .error fault) => ({ s with world }, .error fault)

/-- The rule set of a configuration; none of its rules if it is switched off. -/
def parseConfig (s : Service) (config : Document) : Result RuleSet :=
  match config with
  | .object entries =>
    if (Rule.setting "enabled" (.bool true) entries).isSet then RuleSet.parse s.actions config
    else .ok {}
  | d => Result.misuse (.noAttribute d.kind "get")

def loadConfig (s : Service) (config : Document) : Service × Result RuleSet :=
  match s.parseConfig config with
  | .error fault => (s, .error fault)
  | .ok rs =>
    match s.loadRuleSet rs with
    | (s, r) => (s, r.map fun _ => rs)

/-- Loads the present rule set again, which resets what the rules remember. -/
def reload (s : Service) : Service × Result Unit :=
  match s.running, s.ruleSet with
  | true, some rs =>
    match s.world.load rs none with
    | (world, r) => ({ s with world }, r)
  | _, _ => (s, .ok ())

def handle (fuel : Nat) (s : Service) (e : Event) : Service × Ending Unit :=
  if !s.running then (s, .returned ())
  else match s.world.processEvent fuel e with
    | (world, .returned report) => ({ s with world := world.report report }, .returned ())
    | (world, .raised fault) => ({ s with world }, .raised fault)
    | (world, .unsettled) => ({ s with world }, .unsettled)

def tick (fuel : Nat) (s : Service) (now : Option Moment) : Service × Ending Report :=
  if !s.running then (s, .returned {})
  else match s.world.tick fuel now with
    | (world, .returned report) => ({ s with world := world.report report }, .returned report)
    | (world, ending) => ({ s with world }, ending)

def nextWakeup (s : Service) : Result (Option Moment) :=
  if s.running then s.world.engine.nextWakeup else .ok none

def ruleNames (s : Service) : List Document := if s.running then s.world.engine.ruleNames else []

def recordsOf (s : Service) (name : Document) (limit : Int) : List FiringRecord :=
  if s.running then s.world.engine.recordsOf name limit else []

end Service
end Domotics
