import Domotics.Event
import Domotics.Schedule.Window
import Domotics.Catalog
import Domotics.Storage

/-!
The platform under the rules: devices with their states, a clock, the course of the sun, stores and
notifications. It records the commands and updates that it is given.
-/

namespace Domotics

/-- The state of a platform. With `autoupdate` a command also sets the state. An attached platform
publishes its commands and updates. -/
structure Platform where
  catalog : Catalog := {}
  solar : SolarCalendar := {}
  autoupdate : Bool := false
  states : StateTable := {}
  commands : Array (Reference × Value) := #[]
  updates : Array (Reference × Value) := #[]
  now : Moment
  storage : Storage := {}
  notes : Array String := #[]
  attached : Bool := false
deriving Inhabited

namespace Platform

def stateOf (p : Platform) (r : Reference) : Value := (p.states.get? r).getD .absent

def setState (p : Platform) (r : Reference) (v : Value) : Platform :=
  { p with states := p.states.set r v }

/-- The kind of event of an update: things, and values that are a status, change their connection. -/
def updateKind (r : Reference) (v : Value) : EventKind :=
  match r.kind, v with
  | .thing, _ => .statusChange
  | _, .status _ => .statusChange
  | _, _ => .update

def command (p : Platform) (r : Reference) (v : Value) (source : String) : Platform × Event :=
  ({ p with commands := p.commands.push (r, v) },
    { ref := some r, kind := .command, new := v, old := p.stateOf r, time := p.now, source })

def update (p : Platform) (r : Reference) (v : Value) (source : String) : Platform × Event :=
  ({ p.setState r v with updates := p.updates.push (r, v) },
    { ref := some r, kind := updateKind r v, new := v, old := p.stateOf r, time := p.now, source })

def clearRecorded (p : Platform) : Platform := { p with commands := #[], updates := #[] }

def received (p : Platform) (r : Reference) (v : Value) : Bool :=
  p.commands.any fun c => c.1 == r && c.2.agrees v

@[simp] theorem stateOf_setState (p : Platform) (r : Reference) (v : Value) :
    (p.setState r v).stateOf r = v := by simp [stateOf, setState]

@[simp] theorem update_fst_stateOf (p : Platform) (r : Reference) (v : Value) (source : String) :
    (p.update r v source).1.stateOf r = v := by simp [update, stateOf, setState]

end Platform
end Domotics
