import Domotics.Action
import Domotics.Alias
import Domotics.Expression
import Domotics.Retrigger

/-!
Rules and sets of rules.
-/

namespace Domotics

/-- A rule: when it is triggered and when it is suppressed, its schedule, its cooldown and periodic
fires, and what it does. Settings that count as switched on or off are kept as they are written. -/
structure Rule where
  name : Document
  triggers : List Expression := []
  suppressors : List Expression := []
  schedule : Schedule := {}
  enabledByDefault : Document := .bool true
  cooldown : Duration := .ofSeconds 3
  periodic : List Periodic := []
  continueOnErrors : Document := .bool false
  actions : List Action := []
  aliases : List (String × AliasTarget) := []
deriving Inhabited

structure RuleSet where
  rules : List Rule := []
  aliases : List (String × AliasTarget) := []
deriving Inhabited

/-- A rule as it is made. It may be changed later, so that the rules that are loaded need not be such. -/
structure CheckedRule extends Rule where
  named : toRule.name.isSet = true
  patient : .zero ≤ toRule.cooldown

structure CheckedRuleSet where
  rules : List CheckedRule := []
  aliases : List (String × AliasTarget) := []

namespace Rule

def checked (r : Rule) : Result CheckedRule :=
  if hname : r.name.isSet = true then
    if hcooldown : r.cooldown < .zero then Result.invalid (.ruleCooldown r.name)
    else .ok { r with named := hname, patient := Int.not_lt.mp hcooldown }
  else Result.invalid .emptyRuleName

def check (r : Rule) : Result Rule := (·.toRule) <$> r.checked

/-- Whether the rule runs outside every window of its schedule. -/
def runsByDefault (r : Rule) : Bool := r.enabledByDefault.isSet

/-- Whether faults in predicates count as not holding. -/
def isTolerant (r : Rule) : Bool := r.continueOnErrors.isSet

end Rule

def CheckedRuleSet.toRuleSet (rs : CheckedRuleSet) : RuleSet where
  rules := rs.rules.map (·.toRule)
  aliases := rs.aliases

end Domotics
