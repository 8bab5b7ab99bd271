import Domotics.Schedule

/-!
What a schedule says about a moment. Bounds are resolved on the calendar day of the moment; a span
counts only if it lies within that day.
-/

namespace Domotics

/-- The course of the sun: the same on every day in a time zone of a fixed offset, except where an
almanac has a time of its own. -/
structure SolarCalendar where
  sunrise : Clock := { hour := 6, minute := 0 }
  noon : Clock := { hour := 12, minute := 0 }
  sunset : Clock := { hour := 18, minute := 0 }
  offset : Option Int := some 0
  almanac : Day → Anchor → Option Moment := fun _ _ => none
deriving Inhabited

namespace SolarCalendar

def usual (s : SolarCalendar) (day : Day) (a : Anchor) : Moment :=
  let timeOfDay := match a with
    | .sunrise => s.sunrise.sinceMidnight
    | .noon => s.noon.sinceMidnight
    | .sunset => s.sunset.sinceMidnight
    | .midnight => 0
  .onDay day timeOfDay s.offset

def time (s : SolarCalendar) (day : Day) (a : Anchor) : Moment :=
  (s.almanac day a).getD (s.usual day a)

end SolarCalendar

inductive Window where
  | allowed | forbidden | neutral
deriving DecidableEq, Inhabited, Repr

def Window.name : Window → String
  | allowed => "allowed"
  | forbidden => "forbidden"
  | neutral => "default"

/-- The moment of a bound on a calendar day. Clocks are read with the given offset, anchors by the
course of the sun. -/
def Bound.resolve (b : Bound) (day : Day) (offset : Option Int) (solar : SolarCalendar)
    (isEnd : Bool) : Result Moment := do
  match ← b.fixedOffset isEnd with
  | some d => (Moment.startOf day offset).shift d
  | none =>
    let a := match b.base with
      | .anchor a => a
      | .clock _ => .midnight
    (solar.time day a).shift b.offset

namespace Span

/-- Whether a moment falls within a span on its own day. A span that resolves out of order, or beyond
the day, covers nothing. -/
def covers (s : Span) (t : Moment) (solar : SolarCalendar) : Result Bool := do
  let start ← s.start.resolve t.day t.offset solar false
  let finish ← s.finish.resolve t.day t.offset solar true
  let dayStart := Moment.startOf t.day t.offset
  if (← finish.order start) = .lt then return false
  else if (← start.order dayStart) = .lt then return false
  else
    let dayEnd ← dayStart.shift .day
    if (← finish.order dayEnd) = .gt then return false
    else if (← start.order t) = .gt then return false
    else return (← t.order finish) = .lt

end Span

/-- Whether a moment lies after one bound and before another on its own day. Bounds in the opposite
order leave out the time between them. -/
def withinTimeOfDay (t : Moment) (after before : Option Bound) (solar : SolarCalendar) :
    Result Bool := do
  let start ← match after with
    | some b => some <$> b.resolve t.day t.offset solar false
    | none => pure none
  let finish ← match before with
    | some b => some <$> b.resolve t.day t.offset solar true
    | none => pure none
  match start, finish with
  | some s, some f =>
    if (← s.order f) = .gt then
      if (← t.order s) = .lt then return (← t.order f) = .lt else return true
    else if (← s.order t) = .gt then return false
    else return (← t.order f) = .lt
  | some s, none => return (← t.order s) ≠ .lt
  | none, some f => return (← t.order f) = .lt
  | none, none => return true

namespace Schedule

def anySpan (t : Moment) (solar : SolarCalendar) : List Span → Result Bool
  | [] => .ok false
  | s :: rest => do if ← s.covers t solar then return true else anySpan t solar rest

def anyEntry (t : Moment) (solar : SolarCalendar) : List ScheduleEntry → Result Bool
  | [] => .ok false
  | e :: rest => do
    if e.days.mem t.weekday then
      if ← anySpan t solar e.effectiveSpans then return true else anyEntry t solar rest
    else anyEntry t solar rest

/-- What a schedule says about a moment. What is forbidden stays so even when it is enabled too. -/
def classify (s : Schedule) (t : Moment) (solar : SolarCalendar) : Result Window := do
  if ← anyEntry t solar s.forbidden then return .forbidden
  else if ← anyEntry t solar s.enabled then return .allowed
  else return .neutral

end Schedule
end Domotics
