import Domotics.Fault.Message
import Domotics.Text.Template
import Domotics.World

/-!
Running the actions of a rule that fires. An action that fails leaves what it has done so far; the
actions after it in a sequence are not run. Events that actions cause are processed when the engine
has finished with the present one.
-/

namespace Domotics

/-- What an action knows of the fire it belongs to. The aliases are those under which the rule was
loaded. -/
structure Firing where
  rule : Document
  event : Event
  now : Moment
  aliases : AliasRegistry
  services : Bool := true
deriving Inhabited

structure FiringState where
  firing : Firing
  world : World
deriving Inhabited

namespace FiringState

def map (s : FiringState) (f : World → World) : FiringState := { s with world := f s.world }

/-- The device that a target with a value stands for. A target that does not resolve stands for
none. -/
def deviceOf (s : FiringState) (target : ActionTarget) (v : Value) : Result (Option Reference) :=
  match target with
  | .device r => .ok (some r)
  | .spec d => do
    let type ← v.typeOf
    let r ← Resolution.ofTarget s.firing.aliases s.world.platform.catalog d type
    return r.reference.map (·.ref)

/-- Does something with a device and says whether there was one. A value that has no text is not
handed on. -/
def dispatch (s : FiringState) (target : ActionTarget) (v : Value)
    (act : World → Reference → World) : FiringState × Result Bool :=
  match s.deviceOf target v with
  | .error fault => (s, .error fault)
  | .ok none => (s, .ok false)
  | .ok (some r) => match v.text with
    | .error fault => (s, .error fault)
    | .ok _ => (s.map fun w => act w r, .ok true)

def command (s : FiringState) (target : ActionTarget) (v : Value) : FiringState × Result Bool :=
  s.dispatch target v fun w r => w.commandWithin r v "platform"

def update (s : FiringState) (target : ActionTarget) (v : Value) : FiringState × Result Bool :=
  s.dispatch target v fun w r => w.updateWithin r v "platform"

/-- Keeps the outcome of an action as a line of the log. -/
def logged {α : Type} (line : α → LogLine) : FiringState × Result α → FiringState × Result Unit
  | (s, .ok a) => (s.map (·.note (line a)), .ok ())
  | (s, .error fault) => (s, .error fault)

def silent {α : Type} : FiringState × Result α → FiringState × Result Unit
  | (s, r) => (s, r.map fun _ => ())

/-- The message of a fire from a template, which has to be a text. -/
def messageOf (f : Firing) : Document → Result String
  | .text template =>
    let target := (f.event.ref.map Reference.text).getD ""
    Template.render template [("rule", f.rule), ("target", .text target)]
  | d => Result.misuse (.noAttribute d.kind "format")

/-- Sends a notification, if there is a service for it. -/
def notify (s : FiringState) (template : Document) : FiringState × Result Unit :=
  if !s.firing.services then (s, .ok ())
  else
    match messageOf s.firing template with
    | .ok message =>
      (s.map fun w => { w with platform :=
        { w.platform with notes := w.platform.notes.push message } }, .ok ())
    | .error fault => (s, .error fault)

def count (s : FiringState) (store key : Document) : FiringState × Result Unit :=
  if !s.firing.services then (s, .ok ())
  else
    let storage := do
      let next ← Storage.countAfter (← s.world.platform.storage.get? store key)
      s.world.platform.storage.put store key next
    match storage with
    | .ok storage => (s.map fun w => { w with platform := { w.platform with storage } }, .ok ())
    | .error fault => (s, .error fault)

/-- Loads the last rule set again. -/
def reload (s : FiringState) (now : Option Moment) : FiringState × Result Unit :=
  match s.world.reload now with
  | (world, r) => ({ s with world }, r)

end FiringState

namespace Action

mutual

def run (s : FiringState) : Action → FiringState × Result Unit
  | command target v => FiringState.silent (s.command (.spec target) v)
  | update target v => FiringState.silent (s.update (.spec target) v)
  | notify template => s.notify template
  | counter store key => s.count store key
  | sequence steps => runAll s steps
  | fail message => (s, .error (.refused (.action message)))
  | record =>
    let f := s.firing
    (s.map (·.note (.fired f.rule f.rule f.event.ref f.now)), .ok ())
  | send target v => FiringState.logged .dispatched (s.command target v)
  | set target v => FiringState.logged .dispatched (s.update target v)
  | resolve spec type =>
    let r := Resolution.ofTarget s.firing.aliases s.world.platform.catalog spec type
    FiringState.logged .resolved (s, r.map fun r => r.reference.map (·.ref))
  | process (ref, kind, new, old, source) =>
    let event : Event := { ref, kind, new, old, time := s.firing.now, source }
    (s.map fun w => { w with engine := w.engine.enqueue event }.note (.reported {}), .ok ())
  | tick => (s.map (·.note (.reported {})), .ok ())
  | reload now => s.reload now
  | withoutServices => ({ s with firing := { s.firing with services := false } }, .ok ())

/-- Runs some actions up to the first that fails. -/
def runAll (s : FiringState) : List Action → FiringState × Result Unit
  | [] => (s, .ok ())
  | a :: rest =>
    match run s a with
    | (s, .ok ()) => runAll s rest
    | (s, .error fault) => (s, .error fault)

end

/-- Runs an action of a rule and adds it to the trail, whether it fails or not. -/
def perform (s : FiringState) (a : Action) : FiringState × Result Unit :=
  match run s a with
  | (s, r) => (s.map (·.mark (.acted a)), r)

/-- Runs every action of a rule, also after one that fails, and collects the messages of those that
fail. -/
def runEach (s : FiringState) : List Action → FiringState × List String
  | [] => (s, [])
  | a :: rest =>
    match perform s a with
    | (s, .ok ()) => runEach s rest
    | (s, .error fault) =>
      let (s, errors) := runEach s rest
      (s, fault.message :: errors)

end Action
end Domotics
