import Domotics.Event

/-!
Actions of rules. Besides the actions that command devices, count and notify there are actions that
only report what they find, and actions that drive the engine from within.
-/

namespace Domotics

/-- What an action is directed at: a target to be resolved, or a device itself. -/
inductive ActionTarget where
  | spec (target : Document)
  | device (r : Reference)
deriving Inhabited, Repr

inductive Action where
  | command (target : Document) (value : Value)
  | update (target : Document) (value : Value)
  | notify (template : Document)
  | counter (store key : Document)
  | sequence (steps : List Action)
  | fail (message : String)
  | record
  | send (target : ActionTarget) (value : Value)
  | set (target : ActionTarget) (value : Value)
  | resolve (spec : Document) (type : Option ValueType)
  | process (event : Option Reference × EventKind × Value × Value × String)
  | tick
  | reload (now : Option Moment)
  | withoutServices
deriving Inhabited, Repr

end Domotics
