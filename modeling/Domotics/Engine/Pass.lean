import Domotics.Action.Run
import Domotics.Engine.Judge

/-!
A pass of a rule over one event: the rule notes the new value of the device, judges the event, and
fires if the judgement says so. A fault may end a pass at any point; what was done before it stays.
-/

namespace Domotics

structure PassResult (α : Type) where
  machine : Machine
  world : World
  result : Result α

namespace Machine

/-- Runs the actions of a rule, starts its cooldown and records the fire. -/
def fire (m : Machine) (aliases : AliasRegistry) (w : World) (e : Event) (now : Moment) :
    PassResult Unit :=
  let firing : Firing := { rule := m.rule.name, event := e, now, aliases }
  let (s, errors) := Action.runEach ⟨firing, w⟩ m.rule.actions
  let w := s.world
  match m.retrigger.recordFired now w.platform.solar with
  | (retrigger, .error fault) => ⟨{ m with retrigger }, w, .error fault⟩
  | (retrigger, .ok ()) =>
    let record : FiringRecord :=
      { rule := m.rule.name, time := now, kind := e.kind, target := e.ref
        invoked := m.rule.actions.length, errors }
    ⟨{ m with retrigger }, { w with engine := w.engine.recordFire record }, .ok ()⟩

def conclude (m : Machine) (aliases : AliasRegistry) (w : World) (e : Event) (now : Moment)
    (j : Judgement) : PassResult Outcome :=
  let outcome : Outcome := ⟨m.rule.name, now, e, j⟩
  if j.state = .firing then
    let fired := { m with phase := .firing }.fire aliases w e now
    ⟨{ fired.machine with phase := .idle }, fired.world, fired.result.map fun _ => outcome⟩
  else ⟨{ m with phase := .idle }, w, .ok outcome⟩

/-- Judges an event, and fires if the judgement says so. -/
def attempt (m : Machine) (aliases : AliasRegistry) (w : World) (e : Event) (now : Moment) :
    PassResult Outcome :=
  let old := m.cache.valueBefore e
  let m := { m with cache := m.cache.record e, phase := .evaluating }
  match m.judge (m.situation (w.surroundings aliases) e old now) with
  | .ok j => m.conclude aliases w e now j
  | .error fault => ⟨{ m with phase := .idle }, w, .error fault⟩

def ending (m : Machine) (e : Event) : Result Outcome → Happening
  | .ok outcome => .passed outcome
  | .error fault => .broke m.rule.name e fault

def handle (m : Machine) (aliases : AliasRegistry) (w : World) (e : Event) (now : Moment) :
    PassResult Outcome :=
  let pass := m.attempt aliases (w.mark (.began m.rule.name e)) e now
  { pass with world := pass.world.mark (m.ending e pass.result) }

/-- A pass over a periodic event, if one is due. One that does not fire is passed over. -/
def handleTick (m : Machine) (aliases : AliasRegistry) (w : World) (now : Moment) :
    PassResult (Option Outcome) :=
  match m.retrigger.due now with
  | .error fault => ⟨m, w.mark (.broke m.rule.name (.tick now) fault), .error fault⟩
  | .ok false => ⟨m, w, .ok none⟩
  | .ok true =>
    let pass := m.handle aliases w (.tick now) now
    match pass.result with
    | .error fault => ⟨pass.machine, pass.world, .error fault⟩
    | .ok outcome =>
      if outcome.fired then ⟨pass.machine, pass.world, .ok (some outcome)⟩
      else
        match pass.machine.retrigger.consume now w.platform.solar with
        | (retrigger, .ok ()) =>
          ⟨{ pass.machine with retrigger }, pass.world, .ok (some outcome)⟩
        | (retrigger, .error fault) =>
          ⟨{ pass.machine with retrigger },
            pass.world.mark (.broke m.rule.name (.tick now) fault), .error fault⟩

end Machine
end Domotics
