import Domotics.Engine
import Domotics.Fault.Message

/-!
The words in which the engine gives its reasons, and how outcomes add up to a report.
-/

namespace Domotics

def Reason.text : Reason → String
  | suppressClause => "suppress clause matched"
  | forbidden => "forbidden by schedule"
  | outsideWindows => "outside enabled windows"
  | cooldown remaining => s!"cooldown ({remaining.text} remaining)"
  | noTrigger => "no trigger clause matched"
  | fault f => f.message
  | fired => ""

def Report.add (r : Report) (o : Outcome) (actions : Nat) : Report where
  evaluated := r.evaluated + 1
  triggered := r.triggered + (if o.fired then 1 else 0)
  actions := r.actions + (if o.fired then actions else 0)
  errors := match o.judgement.error? with
    | some f => r.errors ++ [o.rule.asText ++ ": " ++ f.message]
    | none => r.errors
  outcomes := r.outcomes ++ [o]

@[simp] theorem Report.add_outcomes (r : Report) (o : Outcome) (n : Nat) :
    (r.add o n).outcomes = r.outcomes ++ [o] := rfl

@[simp] theorem Report.add_evaluated (r : Report) (o : Outcome) (n : Nat) :
    (r.add o n).evaluated = r.evaluated + 1 := rfl

end Domotics
