import Domotics.Device
import Domotics.Time.Moment

/-!
Events: what happens to devices. A command changes no state by itself; an update and a change of
connection do. A periodic event belongs to no device.
-/

namespace Domotics

inductive EventKind where
  | command | update | statusChange | periodic
deriving DecidableEq, Inhabited, Repr

def EventKind.name : EventKind → String
  | command => "command"
  | update => "update"
  | statusChange => "status_change"
  | periodic => "periodic"

def EventKind.ofName? (s : String) : Option EventKind :=
  [EventKind.command, .update, .statusChange, .periodic].find? (·.name == s)

/-- An event of a device, with the value before it when that is known. -/
structure Event where
  ref : Option Reference
  kind : EventKind
  new : Value := .absent
  old : Value := .absent
  time : Moment
  source : String := "platform"
deriving Inhabited, Repr

/-- Updates and changes of connection set the state of a device. -/
def Event.changesState (e : Event) : Bool := e.kind = .update || e.kind = .statusChange

def Event.tick (now : Moment) : Event :=
  { ref := none, kind := .periodic, time := now, source := "retrigger" }

/-- Values of devices; the last value that was set counts. -/
structure StateTable where
  entries : List (Reference × Value) := []
deriving Inhabited, Repr

namespace StateTable

def get? (t : StateTable) (r : Reference) : Option Value :=
  (t.entries.find? (·.1 == r)).map (·.2)

def put (r : Reference) (v : Value) : List (Reference × Value) → List (Reference × Value)
  | [] => [(r, v)]
  | (q, w) :: rest => if q = r then (q, v) :: rest else (q, w) :: put r v rest

def set (t : StateTable) (r : Reference) (v : Value) : StateTable := ⟨put r v t.entries⟩

@[simp] theorem get?_empty (r : Reference) : ({} : StateTable).get? r = none := rfl

theorem get?_set (t : StateTable) (r q : Reference) (v : Value) :
    (t.set r v).get? q = if r = q then some v else t.get? q := by
  obtain ⟨entries⟩ := t
  simp only [get?, set]
  induction entries with
  | nil => by_cases h : r = q <;> simp [put, h]
  | cons e rest ih =>
    obtain ⟨p, w⟩ := e
    by_cases hp : p = r
    · subst hp
      by_cases hq : p = q <;> simp [put, hq]
    · by_cases hq : p = q
      · subst hq; simp [put, hp, Ne.symm hp]
      · simpa [put, hp, hq] using ih

@[simp] theorem get?_set_self (t : StateTable) (r : Reference) (v : Value) :
    (t.set r v).get? r = some v := by simp [get?_set]

def record (t : StateTable) (e : Event) : StateTable :=
  match e.ref with
  | some r => if e.changesState then t.set r e.new else t
  | none => t

/-- The value of the device of an event before the event: the value that the event carries, or else
the one in the table. -/
def valueBefore (t : StateTable) (e : Event) : Value :=
  if e.old.isPresent then e.old
  else match e.ref with
    | some r => (t.get? r).getD .absent
    | none => .absent

end StateTable
end Domotics
