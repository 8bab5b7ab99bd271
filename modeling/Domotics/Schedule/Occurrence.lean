import Domotics.Schedule.Window

/-!
The next time that a bound occurs, on any day or on one weekday.
-/

namespace Domotics.Bound

def occurrenceFrom (b : Bound) (after : Moment) (solar : SolarCalendar) (weekday : Option Weekday)
    (day : Day) : Nat → Result Moment
  | 0 => Result.invalid (.noOccurrence b after)
  | count + 1 =>
    if Day.count ≤ day then Result.misuse .dateRange
    else if weekday.isSome ∧ weekday ≠ some day.weekday then
      occurrenceFrom b after solar weekday (day + 1) count
    else do
      let candidate ← b.resolve day after.offset solar false
      if (← candidate.order after) = .gt then return candidate
      else occurrenceFrom b after solar weekday (day + 1) count

/-- The first occurrence after a moment, on the fifteen days from its own on. -/
def nextOccurrence (b : Bound) (after : Moment) (solar : SolarCalendar)
    (weekday : Option Weekday) : Result Moment :=
  occurrenceFrom b after solar weekday after.day 15

end Domotics.Bound
