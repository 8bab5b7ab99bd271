import Domotics.Time.ClockReader
import Domotics.Time.Date

/-!
Moments: a local date and time of day, with an offset from universal time or without one. Arithmetic
moves the local time and keeps the offset; order and difference are those of the instants. A moment
with an offset and one without have neither an order nor a difference.
-/

namespace Domotics

/-- Microseconds of local time since the beginning of day 0, and the offset in microseconds. -/
structure Moment where
  ticks : Int
  offset : Option Int
deriving DecidableEq, Inhabited, Repr

namespace Moment

/-- The calendar has a day for every moment in range. -/
def InCalendar (m : Moment) : Prop := 0 ≤ m.ticks ∧ m.ticks < Day.count * Duration.perDay

instance (m : Moment) : Decidable m.InCalendar := by unfold InCalendar; infer_instance

def day (m : Moment) : Day := (m.ticks / Duration.perDay).toNat

def timeOfDay (m : Moment) : Duration := ⟨m.ticks % Duration.perDay⟩

def weekday (m : Moment) : Weekday := m.day.weekday

def onDay (d : Day) (timeOfDay : Nat) (offset : Option Int) : Moment :=
  ⟨d * Duration.perDay + timeOfDay, offset⟩

def startOf (d : Day) (offset : Option Int) : Moment := onDay d 0 offset

/-- Moves the local time, without regard to the limits of the calendar. -/
def plus (m : Moment) (d : Duration) : Moment := { m with ticks := m.ticks + d.micros }

def shift? (m : Moment) (d : Duration) : Option Moment :=
  if (m.plus d).InCalendar then some (m.plus d) else none

def instant (m : Moment) : Int := m.ticks - m.offset.getD 0

/-- Two moments that both have an offset, or both have none. -/
def Comparable (a b : Moment) : Prop := a.offset.isSome = b.offset.isSome

instance (a b : Moment) : Decidable (a.Comparable b) := by unfold Comparable; infer_instance

def compare? (a b : Moment) : Option Ordering :=
  if a.Comparable b then some (compare a.instant b.instant) else none

def since? (a b : Moment) : Option Duration :=
  if a.Comparable b then some ⟨a.instant - b.instant⟩ else none

def textWith (separator : String) (m : Moment) : String :=
  m.day.text ++ separator ++ Duration.clockText 2 m.timeOfDay.micros.toNat
    ++ (match m.offset with
      | some offset => Clock.offsetText offset
      | none => "")

def isoText (m : Moment) : String := m.textWith "T"

def text (m : Moment) : String := m.textWith " "

def read? (s : String) : Option Moment :=
  let cs := s.toList
  let number (start count : Nat) : Option Nat := Text.numeral? ((cs.drop start).take count)
  match number 0 4, number 5 2, number 8 2 with
  | some year, some month, some dayOfMonth =>
    match Day.ofDate? year month dayOfMonth with
    | some d =>
      match cs.drop 11 with
      | [] => some (startOf d none)
      | rest => (Clock.readBytes rest).map fun c => onDay d c.sinceMidnight c.offset
    | none => none
  | _, _, _ => none

@[simp] theorem plus_ticks (m : Moment) (d : Duration) : (m.plus d).ticks = m.ticks + d.micros := rfl

@[simp] theorem plus_offset (m : Moment) (d : Duration) : (m.plus d).offset = m.offset := rfl

end Moment
end Domotics
