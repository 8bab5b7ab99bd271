import Domotics.Schedule.Occurrence

/-!
When a rule may fire again, and when it fires by itself. After a fire a rule rests for its cooldown.
A periodic specification is an interval, counted from the later of the arming and the last fire, or a
point of the day, on one weekday or on every day.
-/

namespace Domotics

/-- A duration that is longer than nothing. -/
structure Interval extends Duration where
  positive : 0 < micros
deriving DecidableEq, Repr

instance : CoeOut Interval Duration := ⟨Interval.toDuration⟩

/-- Some seconds, one of them at least. -/
def Interval.ofSeconds (n : Nat) : Interval :=
  ⟨.ofSeconds (max n 1 : Nat), by simp only [Duration.ofSeconds, Duration.perSecond]; omega⟩

inductive Periodic where
  | every (interval : Interval)
  | daily (bound : Bound) (weekday : Option Weekday)
deriving DecidableEq, Inhabited, Repr

namespace Periodic

def interval (d : Duration) : Result Periodic :=
  if h : 0 < d.micros then .ok (.every ⟨d, h⟩) else Result.invalid .interval

def parseWeekday (raw : Document) : Result (Option Weekday) :=
  match raw with
  | .null => .ok none
  | raw => do
    let days ← DaySet.parse raw
    match days.toList with
    | [d] => return some d
    | _ => Result.invalid (.retriggerDay raw)

/-- Whether a document contains a key: as a key, as an item or as a part of a text. -/
def hasKey (key : String) : Document → Result Bool
  | .object entries => .ok (Document.entry? key entries).isSome
  | .list items => .ok (items.any (·.agrees (.text key)))
  | .text s => .ok (Text.cutChars key.toList s.toList).isSome
  | d => Result.misuse (.noContainment d)

def parse (raw : Document) : Result Periodic := do
  if ← hasKey "every" raw then
    match raw with
    | .object entries => interval (← Duration.parse ((Document.entry? "every" entries).getD .null))
    | d => Result.misuse (.notIndexed d.kind)
  else if ← hasKey "at" raw then
    match raw with
    | .object entries =>
      let weekday ← parseWeekday ((Document.entry? "day" entries).getD .null)
      let bound ← Bound.parse ((Document.entry? "at" entries).getD .null)
      return .daily bound weekday
    | d => Result.misuse (.noAttribute d.kind "get")
  else Result.invalid (.retriggerShape raw)

end Periodic

/-- The cooldown and the periodic specifications of a rule, with the time of its last fire, the time
from which periodic fires count, and the next of them. -/
structure Retrigger where
  cooldown : Duration
  specs : List Periodic
  lastFired : Option Moment := none
  armedAt : Option Moment := none
  nextTick : Option Moment := none
deriving DecidableEq, Inhabited, Repr

namespace Retrigger

def make (cooldown : Duration) (specs : List Periodic) : Result Retrigger :=
  if cooldown < .zero then Result.invalid .cooldown else .ok { cooldown, specs }

def mayFire (r : Retrigger) (now : Moment) : Result Bool :=
  match r.lastFired with
  | none => .ok true
  | some last => do return decide (r.cooldown ≤ (← now.since last))

def remaining (r : Retrigger) (now : Moment) : Result Duration :=
  match r.lastFired with
  | none => .ok .zero
  | some last => do
    let rest ← (r.cooldown.minus (← now.since last)).check
    return if .zero < rest then rest else .zero

/-- The time from which the intervals count. -/
def base (r : Retrigger) (now : Moment) : Result Moment := do
  let armed := r.armedAt.getD now
  match r.lastFired with
  | none => return armed
  | some last => return if (← last.order armed) = .gt then last else armed

/-- The first multiple of an interval from `base` on that lies after `now`. -/
def intervalTick (base now : Moment) (interval : Interval) : Result Moment := do
  let first ← base.shift interval
  if (← first.order now) = .gt then return first
  else
    let periods := (now.instant - base.instant) / interval.micros + 1
    base.shift ⟨periods * interval.micros⟩

def tickOf (r : Retrigger) (now : Moment) (solar : SolarCalendar) : Periodic → Result Moment
  | .every interval => do intervalTick (← r.base now) now interval
  | .daily bound weekday => bound.nextOccurrence now solar weekday

def earliest : List Moment → Result (Option Moment)
  | [] => .ok none
  | m :: rest =>
    let step (best next : Moment) : Result Moment := do
      return if (← next.order best) = .lt then next else best
    some <$> rest.foldlM step m

def computeNext (r : Retrigger) (now : Moment) (solar : SolarCalendar) : Result (Option Moment) := do
  earliest (← r.specs.mapM (r.tickOf now solar))

/-- Plans the next periodic fire. The plan stays as it is if there is none to be made. -/
def plan (r : Retrigger) (now : Moment) (solar : SolarCalendar) : Retrigger × Result Unit :=
  match r.computeNext now solar with
  | .ok next => ({ r with nextTick := next }, .ok ())
  | .error fault => (r, .error fault)

def arm (r : Retrigger) (now : Moment) (solar : SolarCalendar) : Retrigger × Result Unit :=
  { r with armedAt := some now }.plan now solar

/-- Records a fire. Periodic fires are planned anew if they have been started. -/
def recordFired (r : Retrigger) (now : Moment) (solar : SolarCalendar) : Retrigger × Result Unit :=
  let r := { r with lastFired := some now }
  if r.armedAt.isSome then r.plan now solar else (r, .ok ())

def consume (r : Retrigger) (now : Moment) (solar : SolarCalendar) : Retrigger × Result Unit :=
  r.plan now solar

def due (r : Retrigger) (now : Moment) : Result Bool :=
  match r.nextTick with
  | none => .ok false
  | some tick => do return (← now.order tick) ≠ .lt

@[simp] theorem mayFire_of_lastFired_eq_none {r : Retrigger} (h : r.lastFired = none)
    (now : Moment) : r.mayFire now = .ok true := by simp [mayFire, h]

@[simp] theorem due_of_nextTick_eq_none {r : Retrigger} (h : r.nextTick = none) (now : Moment) :
    r.due now = .ok false := by simp [due, h]

@[simp] theorem plan_lastFired (r : Retrigger) (now : Moment) (solar : SolarCalendar) :
    (r.plan now solar).1.lastFired = r.lastFired := by
  unfold plan; split <;> rfl

@[simp] theorem plan_cooldown (r : Retrigger) (now : Moment) (solar : SolarCalendar) :
    (r.plan now solar).1.cooldown = r.cooldown := by
  unfold plan; split <;> rfl

@[simp] theorem plan_specs (r : Retrigger) (now : Moment) (solar : SolarCalendar) :
    (r.plan now solar).1.specs = r.specs := by
  unfold plan; split <;> rfl

theorem plan_of_specs_eq_nil {r : Retrigger} (h : r.specs = []) (now : Moment)
    (solar : SolarCalendar) : r.plan now solar = ({ r with nextTick := none }, .ok ()) := by
  simp [plan, computeNext, h, earliest, bind, Except.bind, pure, Except.pure]

@[simp] theorem recordFired_lastFired (r : Retrigger) (now : Moment) (solar : SolarCalendar) :
    (r.recordFired now solar).1.lastFired = some now := by
  unfold recordFired; dsimp only; split <;> simp

@[simp] theorem recordFired_cooldown (r : Retrigger) (now : Moment) (solar : SolarCalendar) :
    (r.recordFired now solar).1.cooldown = r.cooldown := by
  unfold recordFired; dsimp only; split <;> simp

@[simp] theorem recordFired_specs (r : Retrigger) (now : Moment) (solar : SolarCalendar) :
    (r.recordFired now solar).1.specs = r.specs := by
  unfold recordFired; dsimp only; split <;> simp

end Retrigger
end Domotics
