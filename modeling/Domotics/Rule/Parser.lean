import Domotics.Expression.Parser
import Domotics.Rule

/-!
Reading rules from a configuration. The actions of a rule are the names of registered actions.
-/

namespace Domotics

abbrev ActionRegistry := List (String × Action)

def ActionRegistry.find? (r : ActionRegistry) (name : String) : Option Action :=
  (List.find? (·.1 == name) r.reverse).map (·.2)

namespace Rule

def setting (key : String) (default : Document) (entries : List (String × Document)) : Document :=
  (Document.entry? key entries).getD default

def parseAction (registry : ActionRegistry) (name : Document) : Result Action :=
  if !name.isScalar then Result.misuse (.unhashable name)
  else
    let found := match name with
      | .text s => registry.find? s
      | _ => none
    match found with
    | some a => .ok a
    | none => Result.invalid (.unknownAction name)

def itemsAt (key : String) (entries : List (String × Document)) : Result (List Document) :=
  Schedule.itemsOf (setting key (.list []) entries)

/-- The cooldown of a configuration; three seconds if none is given. -/
def parseCooldown (entries : List (String × Document)) : Result Duration :=
  match setting "dont_retrigger_within" .null entries with
  | .null => .ok (.ofSeconds 3)
  | raw => Duration.parse raw

def read (registry : ActionRegistry) (data : Document) : Result CheckedRule :=
  match data with
  | .object entries => do
    let name := setting "name" .null entries
    if !name.isSet then Result.invalid (.ruleName data)
    let actions ← (← itemsAt "actions" entries).mapM (parseAction registry)
    let triggers ← (← itemsAt "trigger_when" entries).mapM Expression.parse
    let suppressors ← (← itemsAt "suppress_when" entries).mapM Expression.parse
    let split := (setting "split_overnight" (.bool false) entries).isSet
    let schedule ← Schedule.parse data split
    let cooldown ← parseCooldown entries
    let periodic ← (← itemsAt "retrigger_every" entries).mapM Periodic.parse
    let aliases ← AliasTarget.parseAll (setting "aliases" (.object []) entries)
    checked {
      name, triggers, suppressors, schedule, cooldown, periodic, actions, aliases
      enabledByDefault := setting "enabled_by_default" (.bool true) entries
      continueOnErrors := setting "continue_on_errors" (.bool false) entries }
  | d => Result.invalid (.ruleShape d)

def parse (registry : ActionRegistry) (data : Document) : Result Rule := (·.toRule) <$> read registry data

end Rule

namespace RuleSet

def read (registry : ActionRegistry) (data : Document) : Result CheckedRuleSet :=
  match data with
  | .object entries => do
    let rules ← (← Rule.itemsAt "rules" entries).mapM (Rule.read registry)
    let aliases ← AliasTarget.parseAll (Rule.setting "aliases" (.object []) entries)
    return { rules, aliases }
  | d => Result.misuse (.noAttribute d.kind "get")

def parse (registry : ActionRegistry) (data : Document) : Result RuleSet := (·.toRuleSet) <$> read registry data

end RuleSet
end Domotics
