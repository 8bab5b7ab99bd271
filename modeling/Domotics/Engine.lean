import Domotics.Expression.Evaluation
import Domotics.Rule

/-!
The rule engine at rest: loaded rules with what each of them remembers, the events that wait, and the
record of fires.
-/

namespace Domotics

/-- How far a rule has come with an event, and how a pass of it ends. -/
inductive RuleState where
  | idle | evaluating | firing | suppressed | errored
deriving DecidableEq, Inhabited, Repr

def RuleState.name : RuleState → String
  | idle => "idle"
  | evaluating => "evaluating"
  | firing => "firing"
  | suppressed => "suppressed"
  | errored => "errored"

inductive Reason where
  | suppressClause | forbidden | outsideWindows | cooldown (remaining : Duration) | noTrigger
  | fault (f : Fault) | fired
deriving Inhabited

structure Judgement where
  state : RuleState
  reason : Reason
  absorbed : List Fault := []
deriving Inhabited

structure Outcome where
  rule : Document
  time : Moment
  event : Event
  judgement : Judgement
deriving Inhabited

structure Report where
  evaluated : Int := 0
  triggered : Int := 0
  actions : Int := 0
  errors : List String := []
  outcomes : List Outcome := []
deriving Inhabited

structure FiringRecord where
  rule : Document
  time : Moment
  kind : EventKind
  target : Option Reference
  invoked : Nat
  errors : List String
deriving Inhabited

/-- A loaded rule with its timers, the last values it has seen, and the state it is in. -/
structure Machine where
  rule : Rule
  retrigger : Retrigger
  cache : StateTable := {}
  phase : RuleState := .idle
deriving Inhabited

structure RuleBook where
  aliases : AliasRegistry := {}
  machines : List Machine := []
deriving Inhabited

/-- The engine. Every load begins a new generation of rules. -/
structure Engine where
  book : RuleBook := {}
  generation : Nat := 0
  pending : List Event := []
  draining : Bool := false
  history : List FiringRecord := []
  fireCounts : List (Document × Nat) := []
deriving Inhabited

def Judgement.error? (j : Judgement) : Option Fault :=
  match j.reason with
  | .fault f => some f
  | _ => none

def Outcome.fired (o : Outcome) : Bool := o.judgement.state = .firing

namespace Report

def merge (a b : Report) : Report where
  evaluated := a.evaluated + b.evaluated
  triggered := a.triggered + b.triggered
  actions := a.actions + b.actions
  errors := a.errors ++ b.errors
  outcomes := a.outcomes ++ b.outcomes

@[simp] theorem merge_empty (a : Report) : a.merge {} = a := by
  simp [merge]

@[simp] theorem empty_merge (a : Report) : Report.merge {} a = a := by
  simp [merge]

theorem merge_assoc (a b c : Report) : (a.merge b).merge c = a.merge (b.merge c) := by
  simp [merge, List.append_assoc, Int.add_assoc]

end Report

namespace RuleBook

def bindAll (r : AliasRegistry) : List (List (String × AliasTarget)) → Result AliasRegistry
  | [] => .ok r
  | aliases :: rest =>
    match r.registerAll aliases with
    | (r, .ok ()) => bindAll r rest
    | (_, .error fault) => .error fault

/-- Sets up the rules that follow `earlier`. No two rules share a name. -/
def addMachines (earlier : List Machine) : List Rule → Result (List Machine)
  | [] => .ok earlier
  | r :: rest => do
    if !r.name.isScalar then Result.misuse (.unhashable r.name)
    if earlier.any (·.rule.name.agrees r.name) then Result.invalid (.duplicateRule r.name)
    let retrigger ← Retrigger.make r.cooldown r.periodic
    addMachines (earlier ++ [{ rule := r, retrigger }]) rest

def armAll (now : Moment) (solar : SolarCalendar) : List Machine → Result (List Machine)
  | [] => .ok []
  | m :: rest =>
    match m.retrigger.arm now solar with
    | (retrigger, .ok ()) => do return { m with retrigger } :: (← armAll now solar rest)
    | (_, .error fault) => .error fault

def build (rs : RuleSet) (now : Moment) (solar : SolarCalendar) : Result RuleBook := do
  let aliases ← bindAll {} (rs.aliases :: rs.rules.map (·.aliases))
  let machines ← addMachines [] rs.rules
  return { aliases := aliases.freeze, machines := ← armAll now solar machines }

end RuleBook

namespace Engine

def historySize : Nat := 100

/-- Replaces the rules and forgets the events that wait. On failure nothing changes. -/
def load (e : Engine) (rs : RuleSet) (now : Moment) (solar : SolarCalendar) :
    Engine × Result Unit :=
  match RuleBook.build rs now solar with
  | .ok book => ({ e with book, generation := e.generation + 1, pending := [] }, .ok ())
  | .error fault => (e, .error fault)

def ruleNames (e : Engine) : List Document := e.book.machines.map (·.rule.name)

def machine? (e : Engine) (name : Document) : Option Machine :=
  e.book.machines.find? (·.rule.name.agrees name)

def enqueue (e : Engine) (event : Event) : Engine := { e with pending := e.pending ++ [event] }

/-- Replaces a rule of the present generation; rules of an earlier one are not kept any more. -/
def store (e : Engine) (generation index : Nat) (m : Machine) : Engine :=
  if e.generation = generation then
    { e with book := { e.book with machines := e.book.machines.set index m } }
  else e

def lastOf {α : Type} (n : Nat) (xs : List α) : List α := xs.drop (xs.length - n)

def countUp (name : Document) : List (Document × Nat) → List (Document × Nat)
  | [] => [(name, 1)]
  | (n, count) :: rest =>
    if n.agrees name then (n, count + 1) :: rest else (n, count) :: countUp name rest

def recordFire (e : Engine) (r : FiringRecord) : Engine :=
  { e with
    history := lastOf historySize (e.history ++ [r])
    fireCounts := countUp r.rule e.fireCounts }

def firedCount (e : Engine) (name : Document) : Nat :=
  ((e.fireCounts.find? (·.1.agrees name)).map (·.2)).getD 0

def isTriggered (e : Engine) (name : Document) : Bool := 0 < e.firedCount name

def isNotTriggered (e : Engine) (name : Document) : Bool := e.firedCount name = 0

def resetHistory (e : Engine) : Engine := { e with history := [], fireCounts := [] }

/-- The records up to a limit. The limit is looked at after each record, so that the first is always
among them. -/
def upTo (limit : Int) (taken : Nat) : List FiringRecord → List FiringRecord
  | [] => []
  | r :: rest => if limit ≤ taken + 1 then [r] else r :: upTo limit (taken + 1) rest

def recordsOf (e : Engine) (name : Document) (limit : Int) : List FiringRecord :=
  upTo limit 0 (e.history.reverse.filter fun r => !name.isSet || r.rule.equals name)

def nextWakeup (e : Engine) : Result (Option Moment) :=
  Retrigger.earliest (e.book.machines.filterMap (·.retrigger.nextTick))

@[simp] theorem firedCount_resetHistory (e : Engine) (name : Document) :
    e.resetHistory.firedCount name = 0 := rfl

@[simp] theorem pending_enqueue (e : Engine) (event : Event) :
    (e.enqueue event).pending = e.pending ++ [event] := rfl

end Engine
end Domotics
