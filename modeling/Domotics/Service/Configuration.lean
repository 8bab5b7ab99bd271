import Domotics.Service

/-!
The configuration of a service: what a new service starts from, and a description of every setting,
as a document from which a form can be drawn.
-/

namespace Domotics

namespace Setting

def typed (type : String) (details : List (String × Document)) : Document :=
  .object (("type", .text type) :: details)

def title (s : String) : String × Document := ("title", .text s)

def purpose (s : String) : String × Document := ("description", .text s)

def preset (d : Document) : String × Document := ("default", d)

def record (fields details : List (String × Document)) : Document :=
  typed "object" (("properties", .object fields) :: details)

def listOf (item : Document) (details : List (String × Document)) : Document :=
  typed "array" (("items", item) :: details)

def mapTo (item : Document) (details : List (String × Document)) : Document :=
  typed "object" (("additionalProperties", item) :: details)

def aliasTarget : Document :=
  record (["item", "thing", "channel"].map fun kind => (kind, typed "string" []))
    [("minProperties", .int 1), ("maxProperties", .int 1)]

def window : Document :=
  record [
    ("days", .object [purpose "Day names, ranges (mon-fri), weekdays, weekend or daily"]),
    ("during", listOf (typed "array" [("minItems", .int 2), ("maxItems", .int 2)])
      [purpose "[start, end] pairs: HH:MM, 1530, 24:00, SUNRISE+30m"])] []

def clauses (name effect : String) : Document :=
  listOf (typed "object" []) [title name, purpose effect]

def rule : Document :=
  record [
    ("name", typed "string" [title "Rule Name"]),
    ("aliases", mapTo aliasTarget []),
    ("trigger_when", clauses "Trigger Clauses" "Rule fires if any clause holds"),
    ("suppress_when", clauses "Suppress Clauses" "Rule doesn't fire if any clause holds"),
    ("enabled_at", listOf window []),
    ("forbidden_at", listOf window []),
    ("split_overnight", typed "boolean"
      [purpose "Split ranges crossing midnight into two days", preset (.bool false)]),
    ("enabled_by_default", typed "boolean" [preset (.bool true)]),
    ("dont_retrigger_within", .object
      [purpose "Cooldown (seconds, 3s, 5m, HH:MM:SS)", preset (.int 3)]),
    ("retrigger_every", listOf (typed "object" []) []),
    ("continue_on_errors", typed "boolean" [preset (.bool false)]),
    ("actions", listOf (typed "string" []) [title "Actions", purpose "Names of registered actions"])]
    [("required", .list [.text "name"])]

end Setting

namespace Service

def identifier : String := "rules"

def configVersion : Int := 1

def newConfig : Document :=
  .object [("version", .int configVersion), ("enabled", .bool true), ("aliases", .object []),
    ("rules", .list [])]

/-- The description of all settings. -/
def configSchema : Document :=
  Setting.record [
    ("version", Setting.typed "integer" [Setting.title "Config Version", ("readOnly", .bool true)]),
    ("enabled", Setting.typed "boolean" [Setting.title "Enable Rules", Setting.preset (.bool true)]),
    ("aliases", Setting.mapTo Setting.aliasTarget [Setting.title "Aliases",
      Setting.purpose "Short names for items, things and channels"]),
    ("rules", Setting.listOf Setting.rule [Setting.title "Rules"])]
    [("required", .list [.text "version", .text "enabled"])]

theorem parseConfig_newConfig (s : Service) : s.parseConfig newConfig = .ok {} := rfl

end Service
end Domotics
