import Domotics.Event
import Domotics.Expression
import Domotics.Resolution
import Domotics.Schedule.Window

/-!
Evaluating expressions against an event, the values seen so far and the present time. A tolerant
evaluation counts a predicate whose target does not resolve, or does not accept the value, as not
holding and notes the fault; any other fault ends the evaluation.
-/

namespace Domotics

structure Surroundings where
  aliases : AliasRegistry
  catalog : Catalog
  states : StateTable
  solar : SolarCalendar
deriving Inhabited

structure Situation extends Surroundings where
  event : Event
  cache : StateTable
  old : Value
  now : Moment
  tolerant : Bool
deriving Inhabited

/-- The truth value of an expression, or the fault that prevented it, with the faults noted on the
way. -/
structure Verdict where
  result : Result Bool
  absorbed : List Fault := []
deriving Inhabited

namespace Predicate

/-- The device of a predicate, which has to accept the type of the value. -/
def locate (p : Predicate) (s : Situation) : Result Reference := do
  let d ← Resolution.strict s.aliases s.catalog p.target p.type
  match s.catalog.accepted? d.ref with
  | none => .error (.unresolved p.target .notFound)
  | some accepted =>
    match p.type with
    | some t =>
      if accepted.contains t then return d.ref else .error (.typeMismatch p.target p.type accepted)
    | none => return d.ref

/-- The present value of a device: the last one that the rule has seen, or else the state at the
platform. -/
def currentValue (s : Situation) (r : Reference) : Value :=
  match s.cache.get? r with
  | some v => v
  | none => (s.states.get? r).getD .absent

def receives (p : Predicate) (s : Situation) (r : Reference) (kind : EventKind) : Bool :=
  s.event.kind = kind && s.event.ref = some r
    && (!p.value.isPresent || s.event.new.equals p.value)

def holds (p : Predicate) (s : Situation) (r : Reference) : Bool :=
  match p.kind with
  | .is => (currentValue s r).equals p.value
  | .goes =>
    s.event.ref = some r && s.event.changesState
      && s.event.new.equals p.value && !s.old.equals p.value
  | .goesFrom =>
    s.event.ref = some r && s.event.changesState
      && s.old.equals p.origin && s.event.new.equals p.value
  | .receivesCommand => p.receives s r .command
  | .receivesUpdate => p.receives s r .update

def evaluate (p : Predicate) (s : Situation) : Verdict :=
  match p.locate s with
  | .ok r => { result := .ok (p.holds s r) }
  | .error fault =>
    if s.tolerant && fault.isAbsorbable then { result := .ok false, absorbed := [fault] }
    else { result := .error fault }

end Predicate

namespace Verdict

/-- Continues after a verdict, unless a fault or a decisive value ends the evaluation. -/
def orElse (first : Verdict) (decisive : Bool) (rest : Verdict) : Verdict :=
  match first.result with
  | .ok b =>
    if b = decisive then first
    else { result := rest.result, absorbed := first.absorbed ++ rest.absorbed }
  | .error _ => first

def opposite (v : Verdict) : Verdict := { v with result := v.result.map (!·) }

end Verdict

namespace Expression

mutual

def evaluate (s : Situation) : Expression → Verdict
  | all children => evaluateAll s children
  | any children => evaluateAny s children
  | negation child => (evaluate s child).opposite
  | time after before => { result := withinTimeOfDay s.now after before s.solar }
  | device p => p.evaluate s
  | foreign _ => { result := .ok false }

/-- Whether all of some expressions hold, up to the first that does not. -/
def evaluateAll (s : Situation) : List Expression → Verdict
  | [] => { result := .ok true }
  | e :: rest => (evaluate s e).orElse false (evaluateAll s rest)

def evaluateAny (s : Situation) : List Expression → Verdict
  | [] => { result := .ok false }
  | e :: rest => (evaluate s e).orElse true (evaluateAny s rest)

end

end Expression
end Domotics
