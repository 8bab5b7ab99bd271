import Domotics.Proofs.Schedule.Cover

/-!
Spans of every day. A schedule with such a span, cut in two at midnight if need be, allows the same moments that lie
between its bounds as times of day: there a span over midnight is not cut, but leaves out the time between its
bounds.
-/

namespace Domotics

variable {t : Moment} {a b : Bound} {d e : Duration}

namespace Bound

def WithinDay (b : Bound) (closing : Bool) : Prop := ∃ d, b.LiesAt closing d

theorem opening_midnight : midnight.LiesAt false .zero := ⟨rfl, by decide, by decide⟩

theorem closing_midnight : midnight.LiesAt true .day := ⟨rfl, by decide, by decide⟩

end Bound

namespace Duration

/-- A time of day lies between two others; if these come in the opposite order, it lies outside the time between them. -/
def Between (d e x : Duration) : Prop := if e < d then d ≤ x ∨ x < e else d ≤ x ∧ x < e

instance (d e x : Duration) : Decidable (d.Between e x) := by
  unfold Between
  infer_instance

theorem between_of_lt {x : Duration} (h : e < d) : d.Between e x ↔ d ≤ x ∨ x < e := by
  rw [Between, if_pos h]

theorem between_of_not_lt {x : Duration} (h : ¬ e < d) : d.Between e x ↔ d ≤ x ∧ x < e := by
  rw [Between, if_neg h]

end Duration

theorem withinTimeOfDay_eq (ha : a.LiesAt false d) (hb : b.LiesAt true e) (ht : t.InCalendar)
    (hnext : (t.plus .day).InCalendar) (solar : SolarCalendar) :
    withinTimeOfDay t (some a) (some b) solar = .ok (decide (d.Between e t.timeOfDay)) := by
  simp only [withinTimeOfDay, ha.resolve ht hnext, hb.resolve ht hnext, map_eq_pure_bind, Result.ok_bind,
    Result.pure_eq_ok, Moment.order_plus, Moment.startOf_plus_order ht, Moment.order_startOf_plus ht,
    Int.compare_eq_lt, Int.compare_eq_gt, ← Duration.lt_def]
  have hbefore : ¬ t.timeOfDay < d ↔ d ≤ t.timeOfDay := Int.not_lt
  by_cases hover : e < d
  · rw [if_pos hover]
    by_cases hlt : t.timeOfDay < d <;> simp [Duration.between_of_lt hover, ← hbefore, hlt]
  · rw [if_neg hover]
    by_cases hlt : t.timeOfDay < d <;> simp [Duration.between_of_not_lt hover, ← hbefore, hlt]

theorem Span.make_of_liesAt (ha : a.LiesAt false d) (hb : b.LiesAt true e) (hle : d ≤ e) :
    Span.make a b = .ok ⟨a, b⟩ := by
  have hinside {x : Duration} {c : Bound} {closing : Bool} (hc : c.LiesAt closing x) :
      checkInside c (some x) = .ok () := if_pos ⟨hc.nonneg, hc.le_day⟩
  have horder : ¬ e < d := Int.not_lt.mpr hle
  simp [Span.make, ha.fixedOffset, hb.fixedOffset, hinside ha, hinside hb, horder]

namespace Schedule

/-- The entries of one span of every day: its pieces if it is split, else an entry with the span. -/
def dailyEntries (a b : Bound) : Result (List ScheduleEntry) := do
  let pieces ← splitOvernight .full a b
  if 1 < pieces.length then return pieces else return [← ScheduleEntry.make .full [← Span.make a b]]

def ofDailySpan (a b : Bound) : Result Schedule := do return ⟨← dailyEntries a b, []⟩

def dailyEntry (first last : Document) : Document :=
  .object [("days", .text "daily"), ("during", .list [.list [first, last]])]

def everyDay (first last : Document) : Document := .object [("enabled_at", .list [dailyEntry first last])]

section

variable {first last : Document} (ha : Bound.parse first = .ok a) (hb : Bound.parse last = .ok b)

include ha hb

theorem readSpans_singleton {days : DaySet} : readSpans days true [.list [first, last]] = do
    let pieces ← splitOvernight days a b
    if 1 < pieces.length then return (pieces, []) else return ([], [← Span.make a b]) := by
  simp [readSpans, spanParts, ha, hb]

theorem readEntry_dailyEntry : readEntry true (dailyEntry first last) = dailyEntries a b := by
  have hplain : Text.lower (Text.trim "daily") = "daily" := by decide +kernel
  have hdays : DaySet.parse (.text "daily") = .ok .full := by
    change DaySet.ofText (Text.lower (Text.trim "daily")) = _
    rw [hplain]
    rfl
  have hread : readEntry true (dailyEntry first last) = do
      let found ← readSpans .full true [.list [first, last]]
      if found.2.isEmpty then return found.1 else return found.1 ++ [← ScheduleEntry.make .full found.2] := by
    simp [readEntry, dailyEntry, Document.entry?, hdays, Document.isSet, itemsOf]
  rw [hread, readSpans_singleton ha hb, dailyEntries]
  cases splitOvernight .full a b with
  | error fault => rfl
  | ok pieces => by_cases hsplit : 1 < pieces.length <;> simp [hsplit]

theorem parse_everyDay : parse (everyDay first last) true = ofDailySpan a b := by
  have hread : parse (everyDay first last) true = do return ⟨← readEntry true (dailyEntry first last), []⟩ := by
    simp [parse, everyDay, entriesAt, Document.entry?, itemsOf, readEntries]
  rw [hread, readEntry_dailyEntry ha hb, ofDailySpan]

end

section

variable (ha : a.LiesAt false d) (hb : b.LiesAt true e)

include ha hb

theorem ofDailySpan_of_lt (h : e < d) : ofDailySpan a b =
    .ok ⟨[⟨.full, [⟨a, .midnight⟩]⟩, ⟨DaySet.full.next, [⟨.midnight, b⟩]⟩], []⟩ := by
  have hlate := Span.make_of_liesAt ha Bound.closing_midnight ha.le_day
  have hearly := Span.make_of_liesAt Bound.opening_midnight hb hb.nonneg
  have htail : tailOf a b = .ok (some b) := by
    simp [tailOf, ha.fixedOffset, hb.fixedOffset, h]
  have hsome : (DaySet.full.isEmpty = false) ∧ DaySet.full.next.isEmpty = false := by decide
  simp [ofDailySpan, dailyEntries, splitOvernight, htail, hlate, hearly, ScheduleEntry.make, hsome]

theorem ofDailySpan_of_le (h : d ≤ e) : ofDailySpan a b = .ok ⟨[⟨.full, [⟨a, b⟩]⟩], []⟩ := by
  have hspan := Span.make_of_liesAt ha hb h
  have htail : tailOf a b = .ok none := by
    have horder : ¬ e < d := Int.not_lt.mpr h
    have hday : ¬ Duration.day < e := Int.not_lt.mpr hb.le_day
    simp [tailOf, ha.fixedOffset, hb.fixedOffset, horder, hday]
  have hsome : DaySet.full.isEmpty = false := by decide
  simp [ofDailySpan, dailyEntries, splitOvernight, htail, hspan, ScheduleEntry.make, hsome]

end

theorem anyEntry_cons_of_covers {days : DaySet} {s : Span} {solar : SolarCalendar} {covered : Bool}
    (hdays : days.mem t.weekday = true) (hs : s.covers t solar = .ok covered) (rest : List ScheduleEntry) :
    anyEntry t solar (⟨days, [s]⟩ :: rest) = if covered then .ok true else anyEntry t solar rest := by
  cases covered <;> simp [anyEntry, anySpan, ScheduleEntry.effectiveSpans, hdays, hs]

/-- A span of every day allows what lies between its bounds, whether it is cut or not. -/
theorem classify_ofDailySpan (ha : a.LiesAt false d) (hb : b.LiesAt true e) :
    ∃ schedule, ofDailySpan a b = .ok schedule ∧ ∀ (t : Moment) (solar : SolarCalendar), t.InCalendar →
      (t.plus .day).InCalendar → schedule.classify t solar =
        .ok (if d.Between e t.timeOfDay then .allowed else .neutral) := by
  by_cases hover : e < d
  · refine ⟨_, ofDailySpan_of_lt ha hb hover, fun t solar ht hnext => ?_⟩
    have hlate := Span.covers_of_liesAt (s := ⟨a, .midnight⟩) ha Bound.closing_midnight ht hnext solar
    have hearly := Span.covers_of_liesAt (s := ⟨.midnight, b⟩) Bound.opening_midnight hb ht hnext solar
    rw [classify, anyEntry_cons_of_covers rfl hlate, anyEntry_cons_of_covers rfl hearly]
    -- The time of day comes before the end of the day and not before its beginning.
    simp only [Duration.between_of_lt hover, Duration.le_def, Duration.lt_def, Duration.day_micros,
      Duration.zero_micros, t.timeOfDay_lt, t.zero_le_timeOfDay, and_true, true_and, decide_eq_true_eq]
    by_cases hfrom : d.micros ≤ t.timeOfDay.micros
    · simp [anyEntry, hfrom]
    · by_cases hto : t.timeOfDay.micros < e.micros <;> simp [anyEntry, hfrom, hto]
  · refine ⟨_, ofDailySpan_of_le ha hb (Int.not_lt.mp hover), fun t solar ht hnext => ?_⟩
    have hspan := Span.covers_of_liesAt (s := ⟨a, b⟩) ha hb ht hnext solar
    rw [classify, anyEntry_cons_of_covers rfl hspan]
    simp only [Duration.between_of_not_lt hover, Duration.le_def, Duration.lt_def, decide_eq_true_eq]
    by_cases hbetween : d.micros ≤ t.timeOfDay.micros ∧ t.timeOfDay.micros < e.micros <;>
      simp [anyEntry, hbetween]

/-- The two ways to look at a span of the day agree. A schedule with a span of every day, as it is read from a
configuration, allows a moment exactly if it lies between the bounds as a time of day; it says nothing about any
other moment. -/
theorem classify_eq_withinTimeOfDay (a b : Bound) (ha : a.WithinDay false) (hb : b.WithinDay true) :
    ∃ schedule, ofDailySpan a b = .ok schedule ∧
      (∀ first last, Bound.parse first = .ok a → Bound.parse last = .ok b →
        parse (everyDay first last) true = .ok schedule) ∧
      ∀ (t : Moment) (solar : SolarCalendar), t.InCalendar → (t.plus .day).InCalendar →
        ∃ inside, withinTimeOfDay t (some a) (some b) solar = .ok inside ∧
          schedule.classify t solar = .ok (if inside then .allowed else .neutral) := by
  obtain ⟨d, ha⟩ := ha
  obtain ⟨e, hb⟩ := hb
  obtain ⟨schedule, hschedule, hclassify⟩ := classify_ofDailySpan ha hb
  refine ⟨schedule, hschedule, fun first last hfirst hlast => ?_, fun t solar ht hnext => ?_⟩
  · rw [parse_everyDay hfirst hlast, hschedule]
  · refine ⟨_, withinTimeOfDay_eq ha hb ht hnext solar, ?_⟩
    simp [hclassify t solar ht hnext]

/-- From a second and a half past ten in the evening to six in the morning. -/
theorem classify_eq_withinTimeOfDay_night :
    let start : Bound := ⟨.clock { hour := 22, minute := 0 }, ⟨1500000⟩⟩
    let finish : Bound := .atClock { hour := 6, minute := 0 }
    let midnight : Moment := .onDay 700 0 (some 0)
    ∃ schedule, ofDailySpan start finish = .ok schedule ∧ midnight.day = 700 ∧
      withinTimeOfDay midnight (some start) (some finish) {} = .ok true ∧
      schedule.classify midnight {} = .ok .allowed := by
  intro start finish midnight
  have hstart : start.WithinDay false := ⟨_, rfl, by decide, by decide⟩
  have hfinish : finish.WithinDay true := ⟨_, rfl, by decide, by decide⟩
  obtain ⟨schedule, hschedule, -, hagree⟩ := classify_eq_withinTimeOfDay start finish hstart hfinish
  obtain ⟨inside, hinside, hclassify⟩ := hagree midnight {} (by decide) (by decide)
  have hnight : withinTimeOfDay midnight (some start) (some finish) {} = .ok true :=
    Result.ok_of_toOption (by decide +kernel)
  cases hinside.symm.trans hnight
  exact ⟨schedule, hschedule, rfl, hnight, hclassify⟩

end Schedule
end Domotics
