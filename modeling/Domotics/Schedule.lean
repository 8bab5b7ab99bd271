import Domotics.Schedule.BoundReader
import Domotics.Schedule.Days

/-!
Weekly schedules: spans of the day on sets of weekdays, during which a rule is enabled or forbidden.
A span lies within one day; one that runs over midnight is split into two when a schedule is read.
-/

namespace Domotics

/-- The times of a day from `start` up to, but not including, `finish`. -/
structure Span where
  start : Bound
  finish : Bound
deriving DecidableEq, Inhabited, Repr

/-- A set of weekdays with the spans that count on them; no spans stand for the whole day. -/
structure ScheduleEntry where
  days : DaySet
  spans : List Span := []
deriving Inhabited

structure Schedule where
  enabled : List ScheduleEntry := []
  forbidden : List ScheduleEntry := []
deriving Inhabited

namespace Span

def fullDay : Span := ⟨.midnight, .midnight⟩

def checkInside (b : Bound) (offset : Option Duration) : Result Unit :=
  match offset with
  | none => .ok ()
  | some d => if .zero ≤ d ∧ d ≤ .day then .ok () else Result.schedule (.outsideDay b)

/-- Makes a span. Both bounds lie within the day, and the end, when both are known, does not come
before the start. -/
def make (start finish : Bound) : Result Span := do
  let s ← start.fixedOffset false
  let e ← finish.fixedOffset true
  checkInside start s
  checkInside finish e
  match s, e with
  | some s, some e => if e < s then Result.schedule (.crossesMidnight start finish) else pure ()
  | _, _ => pure ()
  return ⟨start, finish⟩

end Span

namespace ScheduleEntry

def make (days : DaySet) (spans : List Span) : Result ScheduleEntry :=
  if days.isEmpty then Result.schedule .noDays else .ok ⟨days, spans⟩

def effectiveSpans (e : ScheduleEntry) : List Span :=
  if e.spans.isEmpty then [Span.fullDay] else e.spans

end ScheduleEntry

namespace Schedule

def clockBound (offset : Duration) : Result Bound :=
  if .zero ≤ offset ∧ offset < .day then
    let seconds := offset.micros.toNat / Duration.perSecond
    .ok (.atClock { hour := seconds / 3600, minute := seconds / 60 % 60, second := seconds % 60 })
  else Result.schedule (.tailTooLong offset)

/-- The end of the part of a span that falls on the day after, if there is one. A span with a solar
bound has none. -/
def tailOf (start finish : Bound) : Result (Option Bound) := do
  let s ← start.fixedOffset false
  let e ← finish.fixedOffset true
  match s, e with
  | some s, some e =>
    if e < s then return some finish
    else if .day < e then return some (← clockBound (e.minus .day))
    else return none
  | _, _ => return none

/-- The entries of a span that starts on some weekdays: one, or one up to midnight and one for the
rest on the days after. -/
def splitOvernight (days : DaySet) (start finish : Bound) : Result (List ScheduleEntry) := do
  match ← tailOf start finish with
  | none => return [← ScheduleEntry.make days [← Span.make start finish]]
  | some tail =>
    let evening ← ScheduleEntry.make days [← Span.make start .midnight]
    let morning ← ScheduleEntry.make days.next [← Span.make .midnight tail]
    return [evening, morning]

/-- The documents that an iteration over a document visits: the items of a list, the characters of a
text, the keys of an object. -/
def itemsOf : Document → Result (List Document)
  | .list items => .ok items
  | .text s => .ok (s.toList.map fun c => .text (String.singleton c))
  | .object entries => .ok (entries.map fun e => .text e.1)
  | d => Result.misuse (.notIterable d)

def spanParts (span : Document) : Result (Document × Document) :=
  match span with
  | .list [a, b] => .ok (a, b)
  | .list _ => Result.schedule (.spanShape span)
  | .text s => match s.toList with
    | [a, b] => .ok (.text (String.singleton a), .text (String.singleton b))
    | _ => Result.schedule (.spanShape span)
  | .object [_, _] => Result.misuse (.noKey "0")
  | .object _ => Result.schedule (.spanShape span)
  | d => Result.misuse (.noLength d)

/-- Reads the spans of an entry one after the other. A span that is split makes entries of its own;
the others are collected. -/
def readSpans (days : DaySet) (split : Bool) :
    List Document → Result (List ScheduleEntry × List Span)
  | [] => .ok ([], [])
  | span :: rest => do
    let (first, last) ← spanParts span
    let start ← Bound.parse first
    let finish ← Bound.parse last
    let pieces ← if split then splitOvernight days start finish else pure []
    if 1 < pieces.length then
      let (entries, spans) ← readSpans days split rest
      return (pieces ++ entries, spans)
    else
      let s ← Span.make start finish
      let (entries, spans) ← readSpans days split rest
      return (entries, s :: spans)

def readEntry (split : Bool) (raw : Document) : Result (List ScheduleEntry) :=
  match raw with
  | .object entries => do
    let dayEntry := match Document.entry? "days" entries with
      | some d => d
      | none => (Document.entry? "day" entries).getD .null
    match dayEntry with
    | .null => Result.schedule (.entryDays raw)
    | dayEntry =>
      let days ← DaySet.parse dayEntry
      let spans := (Document.entry? "during" entries).getD (.list [])
      if !spans.isSet then return [← ScheduleEntry.make days []]
      else
        let (split, spans) ← readSpans days split (← itemsOf spans)
        if spans.isEmpty then return split
        else return split ++ [← ScheduleEntry.make days spans]
  | _ => Result.schedule (.entryShape raw)

def readEntries (split : Bool) : List Document → Result (List ScheduleEntry)
  | [] => .ok []
  | raw :: rest => do
    let first ← readEntry split raw
    let others ← readEntries split rest
    return first ++ others

def entriesAt (key : String) (split : Bool) (entries : List (String × Document)) :
    Result (List ScheduleEntry) := do
  readEntries split (← itemsOf ((Document.entry? key entries).getD (.list [])))

def parse (data : Document) (split : Bool) : Result Schedule :=
  match data with
  | .object entries => do
    let enabled ← entriesAt "enabled_at" split entries
    let forbidden ← entriesAt "forbidden_at" split entries
    return ⟨enabled, forbidden⟩
  | d => Result.misuse (.noAttribute d.kind "get")

end Schedule
end Domotics
