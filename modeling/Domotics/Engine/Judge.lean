import Domotics.Engine

/-!
How a rule judges an event, before anything is done. Suppressors come first, then the schedule, the
cooldown, and the triggers at last; a periodic event needs no trigger.
-/

namespace Domotics.Machine

/-- The situation in which a rule judges an event. `old` is the value of the device before it. -/
def situation (m : Machine) (around : Surroundings) (e : Event) (old : Value) (now : Moment) :
    Situation :=
  { around with event := e, cache := m.cache, old, now, tolerant := m.rule.isTolerant }

def judgeTriggers (m : Machine) (s : Situation) (absorbed : List Fault) : Result Judgement :=
  if s.event.kind = .periodic then .ok ⟨.firing, .fired, absorbed⟩
  else
    let v := Expression.evaluateAny s m.rule.triggers
    let absorbed := absorbed ++ v.absorbed
    match v.result with
    | .ok true => .ok ⟨.firing, .fired, absorbed⟩
    | .ok false => .ok ⟨.idle, .noTrigger, absorbed⟩
    | .error fault =>
      if fault.isDomain then .ok ⟨.errored, .fault fault, absorbed⟩ else .error fault

def judgeCooldown (m : Machine) (s : Situation) (absorbed : List Fault) : Result Judgement := do
  if ← m.retrigger.mayFire s.now then m.judgeTriggers s absorbed
  else return ⟨.suppressed, .cooldown (← m.retrigger.remaining s.now), absorbed⟩

def judgeSchedule (m : Machine) (s : Situation) (absorbed : List Fault) : Result Judgement := do
  match ← m.rule.schedule.classify s.now s.solar with
  | .forbidden => return ⟨.suppressed, .forbidden, absorbed⟩
  | .neutral =>
    if m.rule.runsByDefault then m.judgeCooldown s absorbed
    else return ⟨.suppressed, .outsideWindows, absorbed⟩
  | .allowed => m.judgeCooldown s absorbed

def judge (m : Machine) (s : Situation) : Result Judgement :=
  let v := Expression.evaluateAny s m.rule.suppressors
  match v.result with
  | .ok true => .ok ⟨.suppressed, .suppressClause, v.absorbed⟩
  | .ok false => m.judgeSchedule s v.absorbed
  | .error fault =>
    if fault.isDomain then .ok ⟨.errored, .fault fault, v.absorbed⟩ else .error fault

end Domotics.Machine
