import Domotics.Schedule.Window

/-!
What the entries of a weekly schedule say as they are written, before any span is split. A span starts
on the weekdays of its entry and may run into the days after them; an entry without spans stands for
whole days.
-/

namespace Domotics

namespace Bound

/-- The time from the beginning of the day to a bound that is not solar, in microseconds. Midnight is
the beginning of the day when it opens a span, and its end when it closes one. -/
def fromDayStart (b : Bound) (closing : Bool) : Int :=
  match b.base with
  | .clock c => c.sinceMidnight + b.offset.micros
  | .anchor _ => (if closing then (Duration.perDay : Int) else 0) + b.offset.micros

def InWholeSeconds (b : Bound) : Prop :=
  match b.base with
  | .clock c => c.micro = 0 ∧ (Duration.perSecond : Int) ∣ b.offset.micros
  | .anchor a => a = .midnight ∧ (Duration.perSecond : Int) ∣ b.offset.micros

instance (b : Bound) : Decidable b.InWholeSeconds := by
  unfold InWholeSeconds
  split <;> infer_instance

end Bound

/-- A moment is covered by the span between two bounds that starts on some weekdays. A span that ends
before it starts ends on the day after, and so does one that ends after the day. -/
def DaySet.SpanCovers (days : DaySet) (start finish : Bound) (t : Moment) : Prop :=
  let s := start.fromDayStart false
  let e := finish.fromDayStart true
  let x := t.timeOfDay.micros
  if e < s then (days.mem t.weekday ∧ s ≤ x) ∨ (days.mem t.weekday.before ∧ x < e)
  else if e ≤ Duration.perDay then days.mem t.weekday ∧ s ≤ x ∧ x < e
  else (days.mem t.weekday ∧ s ≤ x) ∨ (days.mem t.weekday.before ∧ x < e - Duration.perDay)

instance (days : DaySet) (start finish : Bound) (t : Moment) :
    Decidable (days.SpanCovers start finish t) := by
  unfold DaySet.SpanCovers
  infer_instance

structure WeeklyEntry where
  days : DaySet
  spans : List (Bound × Bound)

structure WeeklyPlan where
  enabled : List WeeklyEntry
  forbidden : List WeeklyEntry

namespace WeeklyEntry

def Covers (e : WeeklyEntry) (t : Moment) : Prop :=
  if e.spans = [] then e.days.mem t.weekday = true
  else ∃ span ∈ e.spans, e.days.SpanCovers span.1 span.2 t

instance (e : WeeklyEntry) (t : Moment) : Decidable (e.Covers t) := by
  unfold Covers
  infer_instance

def InWholeSeconds (e : WeeklyEntry) : Prop :=
  ∀ span ∈ e.spans, span.1.InWholeSeconds ∧ span.2.InWholeSeconds

instance (e : WeeklyEntry) : Decidable e.InWholeSeconds := by
  unfold InWholeSeconds
  infer_instance

def readBounds (span : Document) : Result (Bound × Bound) := do
  let (first, last) ← Schedule.spanParts span
  return (← Bound.parse first, ← Bound.parse last)

def readAllBounds : List Document → Result (List (Bound × Bound))
  | [] => .ok []
  | span :: rest => do return (← readBounds span) :: (← readAllBounds rest)

/-- Reads an entry: the weekdays under `days`, or else under `day`, and the spans under `during`. -/
def read : Document → Result WeeklyEntry
  | .object entries => do
    let days ← DaySet.parse
      ((Document.entry? "days" entries).getD ((Document.entry? "day" entries).getD .null))
    let during := (Document.entry? "during" entries).getD (.list [])
    if during.isSet then return ⟨days, ← readAllBounds (← Schedule.itemsOf during)⟩
    else return ⟨days, []⟩
  | raw => Result.schedule (.entryShape raw)

def readAll : List Document → Result (List WeeklyEntry)
  | [] => .ok []
  | raw :: rest => do return (← read raw) :: (← readAll rest)

end WeeklyEntry

namespace WeeklyPlan

def InWholeSeconds (p : WeeklyPlan) : Prop :=
  (∀ e ∈ p.enabled, e.InWholeSeconds) ∧ ∀ e ∈ p.forbidden, e.InWholeSeconds

instance (p : WeeklyPlan) : Decidable p.InWholeSeconds := by
  unfold InWholeSeconds
  infer_instance

/-- Reads the entries under `enabled_at` and under `forbidden_at`. -/
def read (data : Document) : Result WeeklyPlan := do
  let entriesAt key := do
    WeeklyEntry.readAll (← Schedule.itemsOf ((data.get? key).getD (.list [])))
  return ⟨← entriesAt "enabled_at", ← entriesAt "forbidden_at"⟩

/-- What a plan says about a moment: what is forbidden stays so even when it is enabled too. -/
def window (p : WeeklyPlan) (t : Moment) : Window :=
  if ∃ e ∈ p.forbidden, e.Covers t then .forbidden
  else if ∃ e ∈ p.enabled, e.Covers t then .allowed
  else .neutral

end WeeklyPlan
end Domotics
