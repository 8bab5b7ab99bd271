import Domotics.Schedule.BoundReader
import Domotics.Value.Typing

/-!
Expressions over devices and the time of day. A predicate about a device names its target freely; the
target is resolved when the expression is evaluated.
-/

namespace Domotics

inductive PredicateKind where
  | is | goes | goesFrom | receivesCommand | receivesUpdate
deriving DecidableEq, Inhabited, Repr

def PredicateKind.name : PredicateKind → String
  | is => "is"
  | goes => "goes"
  | goesFrom => "goes_from"
  | receivesCommand => "receives_command"
  | receivesUpdate => "receives_update"

def PredicateKind.ofName? (s : String) : Option PredicateKind :=
  [PredicateKind.is, .goes, .goesFrom, .receivesCommand, .receivesUpdate].find? (·.name == s)

/-- A predicate needs a value to compare with, unless it takes any message. -/
def PredicateKind.needsValue : PredicateKind → Bool
  | is | goes | goesFrom => true
  | receivesCommand | receivesUpdate => false

/-- A predicate about a device: the value that is looked for, and the value before it for a
transition between two values. -/
structure Predicate where
  target : Document
  kind : PredicateKind
  value : Value := .absent
  origin : Value := .absent
  type : Option ValueType := none
deriving Inhabited, Repr

/-- Makes a predicate. Truth values become states of a switch, and a type that is not given is that
of the value. -/
def Predicate.make (target : Document) (kind : PredicateKind) (value origin : Value)
    (type : Option ValueType) : Result Predicate := do
  if !target.isSet then Result.invalid .emptyTarget
  let switched : Value → Value
    | .plain d => .ofPlain d
    | v => v
  let value := switched value
  let origin := switched origin
  if kind.needsValue && !value.isPresent then Result.invalid (.needsValue kind.name target)
  if kind = .goesFrom && !origin.isPresent then Result.invalid (.needsFrom target)
  match type with
  | some t => return ⟨target, kind, value, origin, some t⟩
  | none =>
    match ← value.typeOf with
    | some t => return ⟨target, kind, value, origin, some t⟩
    | none => return ⟨target, kind, value, origin, ← origin.typeOf⟩

/-- An expression. Anything that is no expression may stand in the place of one and never holds. -/
inductive Expression where
  | all (children : List Expression)
  | any (children : List Expression)
  | negation (child : Expression)
  | time (after before : Option Bound)
  | device (p : Predicate)
  | foreign (text : String)
deriving Inhabited, Repr

end Domotics
