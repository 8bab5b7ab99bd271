import Domotics.Proofs.Schedule.Cover

/-!
A weekly schedule means what its configuration says: the entries that are made from it, some of them
pieces of spans over midnight on the weekdays after those that are written, cover the same moments as the
entries as they are written.
-/

namespace Domotics

@[simp] theorem Bound.fromDayStart_midnight (closing : Bool) :
    Bound.midnight.fromDayStart closing = if closing then (Duration.perDay : Int) else 0 := by
  cases closing <;> rfl

namespace Span

theorem checkInside_eq_ok {b : Bound} {d : Duration} (h : checkInside b (some d) = .ok ()) :
    0 ≤ d.micros ∧ d.micros ≤ Duration.perDay := by
  rw [checkInside] at h
  split at h
  · assumption
  · cases h

theorem make_eq_ok {start finish : Bound} {s : Span} (hstart : start.InWholeSeconds)
    (hfinish : finish.InWholeSeconds) (h : make start finish = .ok s) :
    s = ⟨start, finish⟩ ∧ s.Inside ∧ start.fromDayStart false ≤ finish.fromDayStart true := by
  rw [make] at h
  obtain ⟨s', hs, h⟩ := Result.bind_eq_ok.mp h
  obtain ⟨e', he, h⟩ := Result.bind_eq_ok.mp h
  rw [Bound.fixedOffset_eq_ok hstart hs, Bound.fixedOffset_eq_ok hfinish he] at h
  obtain ⟨⟨⟩, hinsideStart, h⟩ := Result.bind_eq_ok.mp h
  obtain ⟨⟨⟩, hinsideFinish, h⟩ := Result.bind_eq_ok.mp h
  obtain ⟨hstartNonneg, hstartLe⟩ := checkInside_eq_ok hinsideStart
  obtain ⟨hfinishNonneg, hfinishLe⟩ := checkInside_eq_ok hinsideFinish
  simp only at h
  split at h
  · cases h
  · cases h
    exact ⟨rfl, ⟨⟨hstart, hstartNonneg, hstartLe⟩, ⟨hfinish, hfinishNonneg, hfinishLe⟩⟩,
      Int.not_lt.mp ‹_›⟩

end Span

namespace ScheduleEntry

theorem make_eq_ok {days : DaySet} {spans : List Span} {e : ScheduleEntry}
    (h : make days spans = .ok e) : e = ⟨days, spans⟩ := by
  rw [make] at h
  split at h
  · cases h
  · cases h
    rfl

/-- Some entries lie within their days and cover exactly the moments that are meant. -/
def Mean (entries : List ScheduleEntry) (meant : Moment → Prop) : Prop :=
  (∀ e ∈ entries, e.Inside) ∧ ∀ t, (∃ e ∈ entries, e.Contains t) ↔ meant t

variable {first later : List ScheduleEntry} {p q : Moment → Prop}

theorem mean_nil : Mean [] fun _ => False := by simp [Mean]

theorem Mean.append (hfirst : Mean first p) (hlater : Mean later q) :
    Mean (first ++ later) fun t => p t ∨ q t := by
  refine ⟨List.forall_mem_append.mpr ⟨hfirst.1, hlater.1⟩, fun t => ?_⟩
  simp only [List.mem_append, or_and_right, exists_or, hfirst.2 t, hlater.2 t]

theorem Mean.congr (h : Mean first p) (hpq : ∀ t, p t ↔ q t) : Mean first q :=
  ⟨h.1, fun t => (h.2 t).trans (hpq t)⟩

theorem mean_singleton (days : DaySet) {spans : List Span} (hne : spans ≠ [])
    (hspans : ∀ s ∈ spans, s.Inside) :
    Mean [⟨days, spans⟩] fun t => days.mem t.weekday ∧ ∃ s ∈ spans, s.Contains t := by
  refine ⟨by simpa [Inside] using hspans, fun t => ?_⟩
  simp only [List.mem_singleton, exists_eq_left, contains_of_spans_ne_nil hne]

end ScheduleEntry

namespace Schedule

open ScheduleEntry

variable {days : DaySet} {start finish : Bound}

theorem clockBound_eq_ok {d : Duration} {b : Bound} (hwhole : (Duration.perSecond : Int) ∣ d.micros)
    (h : clockBound d = .ok b) : b.InWholeSeconds ∧ b.fromDayStart true = d.micros := by
  rw [clockBound] at h
  split at h
  · rename_i hrange
    cases h
    obtain ⟨hnonneg, hlt⟩ := hrange
    simp only [Duration.le_def, Duration.lt_def, Duration.zero_micros, Duration.day_micros,
      Duration.perDay, Duration.perSecond] at hnonneg hlt hwhole
    refine ⟨⟨rfl, Int.dvd_zero _⟩, ?_⟩
    simp only [Bound.atClock, Bound.fromDayStart, Clock.sinceMidnight, Duration.perSecond,
      Duration.zero_micros]
    omega
  · cases h

theorem perSecond_dvd_fromDayStart {b : Bound} {closing : Bool} (hb : b.InWholeSeconds) :
    (Duration.perSecond : Int) ∣ b.fromDayStart closing := by
  obtain ⟨base, offset⟩ := b
  cases base with
  | clock c =>
    obtain ⟨hmicro, hoffset⟩ := hb
    simp only [Bound.fromDayStart, Clock.sinceMidnight, hmicro, Duration.perSecond] at *
    omega
  | anchor a =>
    obtain ⟨-, hoffset⟩ := hb
    cases closing <;> simp only [Bound.fromDayStart, Duration.perDay, Duration.perSecond] at * <;> omega

/-- The part of a span that falls on the day after: none if the span ends within its day, else the time
up to the end, counted from the beginning of the day after. -/
theorem tailOf_eq_ok (hstart : start.InWholeSeconds) (hfinish : finish.InWholeSeconds)
    {tail : Option Bound} (h : tailOf start finish = .ok tail) :
    match tail with
    | none => start.fromDayStart false ≤ finish.fromDayStart true ∧
        finish.fromDayStart true ≤ Duration.perDay
    | some b => b.InWholeSeconds ∧
        if finish.fromDayStart true < start.fromDayStart false then
          b.fromDayStart true = finish.fromDayStart true
        else Duration.perDay < finish.fromDayStart true ∧
          b.fromDayStart true = finish.fromDayStart true - Duration.perDay := by
  rw [tailOf] at h
  obtain ⟨s', hs, h⟩ := Result.bind_eq_ok.mp h
  obtain ⟨e', he, h⟩ := Result.bind_eq_ok.mp h
  rw [Bound.fixedOffset_eq_ok hstart hs, Bound.fixedOffset_eq_ok hfinish he] at h
  simp only [Duration.lt_def, Duration.day_micros] at h
  split at h
  · rename_i hovernight
    cases h
    exact ⟨hfinish, by rw [if_pos hovernight]⟩
  · rename_i hovernight
    split at h
    · rename_i hlong
      obtain ⟨b, hb, h⟩ := Result.bind_eq_ok.mp h
      cases h
      have hwhole : (Duration.perSecond : Int) ∣
          ((Duration.mk (finish.fromDayStart true)).minus .day).micros :=
        Int.dvd_sub (perSecond_dvd_fromDayStart hfinish) ⟨86400, rfl⟩
      obtain ⟨hbWhole, hbTime⟩ := clockBound_eq_ok hwhole hb
      exact ⟨hbWhole, by rw [if_neg hovernight]; exact ⟨hlong, hbTime⟩⟩
    · rename_i hshort
      cases h
      exact ⟨Int.not_lt.mp hovernight, Int.not_lt.mp hshort⟩

/-- A span that is split means the evening on its weekdays and the morning on the weekdays after. -/
theorem mean_of_split {tail : Bound} {evening morning : ScheduleEntry}
    {late early : Span} (hstart : start.InWholeSeconds) (htail : tail.InWholeSeconds)
    (hlate : Span.make start .midnight = .ok late) (hearly : Span.make .midnight tail = .ok early)
    (hevening : ScheduleEntry.make days [late] = .ok evening)
    (hmorning : ScheduleEntry.make days.next [early] = .ok morning) :
    Mean [evening, morning] fun t =>
      (days.mem t.weekday ∧ start.fromDayStart false ≤ t.timeOfDay.micros) ∨
      (days.mem t.weekday.before ∧ t.timeOfDay.micros < tail.fromDayStart true) := by
  obtain ⟨rfl, hlateInside, -⟩ :=
    Span.make_eq_ok hstart (Bound.inside_midnight true).wholeSeconds hlate
  obtain ⟨rfl, hearlyInside, -⟩ :=
    Span.make_eq_ok (Bound.inside_midnight false).wholeSeconds htail hearly
  rw [ScheduleEntry.make_eq_ok hevening, ScheduleEntry.make_eq_ok hmorning]
  have hfirst := mean_singleton days (List.cons_ne_nil ⟨start, .midnight⟩ [])
    (by simpa using hlateInside)
  have hlater := mean_singleton days.next (List.cons_ne_nil ⟨.midnight, tail⟩ [])
    (by simpa using hearlyInside)
  refine (hfirst.append hlater).congr fun t => ?_
  -- The evening ends and the morning begins with the day, so neither midnight restricts it.
  have hnonneg := t.zero_le_timeOfDay
  have hlt := t.timeOfDay_lt
  simp only [List.mem_singleton, exists_eq_left, Span.Contains, DaySet.mem_next,
    Bound.fromDayStart_midnight, hnonneg, hlt, and_true, true_and, if_true, Bool.false_eq_true, if_false]

theorem splitOvernight_eq_ok (hstart : start.InWholeSeconds) (hfinish : finish.InWholeSeconds)
    {pieces : List ScheduleEntry} (h : splitOvernight days start finish = .ok pieces) :
    if 1 < pieces.length then Mean pieces (days.SpanCovers start finish)
    else ∃ s, Span.make start finish = .ok s ∧
      ∀ t, days.SpanCovers start finish t ↔ days.mem t.weekday ∧ s.Contains t := by
  rw [splitOvernight] at h
  obtain ⟨tail, htail, h⟩ := Result.bind_eq_ok.mp h
  have htailOf := tailOf_eq_ok hstart hfinish htail
  cases tail with
  | none =>
    obtain ⟨s, hs, h⟩ := Result.bind_eq_ok.mp h
    obtain ⟨entry, hentry, h⟩ := Result.bind_eq_ok.mp h
    cases h
    obtain ⟨rfl, -, -⟩ := Span.make_eq_ok hstart hfinish hs
    refine ⟨_, hs, fun t => ?_⟩
    rw [DaySet.SpanCovers]
    simp only [Int.not_lt.mpr htailOf.1, if_false, htailOf.2, if_true, Span.Contains]
  | some tail =>
    obtain ⟨late, hlate, h⟩ := Result.bind_eq_ok.mp h
    obtain ⟨evening, hevening, h⟩ := Result.bind_eq_ok.mp h
    obtain ⟨early, hearly, h⟩ := Result.bind_eq_ok.mp h
    obtain ⟨morning, hmorning, h⟩ := Result.bind_eq_ok.mp h
    cases h
    refine (mean_of_split hstart htailOf.1 hlate hearly hevening hmorning).congr fun t => ?_
    rw [DaySet.SpanCovers]
    by_cases hovernight : finish.fromDayStart true < start.fromDayStart false
    · have htime := htailOf.2
      rw [if_pos hovernight] at htime
      simp only [hovernight, if_true, htime]
    · have htime := htailOf.2
      rw [if_neg hovernight] at htime
      simp only [hovernight, if_false, Int.not_le.mpr htime.1, htime.2]

theorem readSpans_cons_eq_ok {span : Document} {rest : List Document} {entries : List ScheduleEntry}
    {spans : List Span} (h : readSpans days true (span :: rest) = .ok (entries, spans)) :
    ∃ start finish pieces later others, WeeklyEntry.readBounds span = .ok (start, finish) ∧
      splitOvernight days start finish = .ok pieces ∧ readSpans days true rest = .ok (later, others) ∧
      if 1 < pieces.length then entries = pieces ++ later ∧ spans = others
      else ∃ s, Span.make start finish = .ok s ∧ entries = later ∧ spans = s :: others := by
  rw [readSpans] at h
  obtain ⟨⟨first, last⟩, hparts, h⟩ := Result.bind_eq_ok.mp h
  obtain ⟨start, hstart, h⟩ := Result.bind_eq_ok.mp h
  obtain ⟨finish, hfinish, h⟩ := Result.bind_eq_ok.mp h
  obtain ⟨pieces, hpieces, h⟩ := Result.bind_eq_ok.mp h
  have hread : WeeklyEntry.readBounds span = .ok (start, finish) := by
    simp [WeeklyEntry.readBounds, hparts, hstart, hfinish]
  dsimp only at h
  split at h
  · rename_i hsplit
    obtain ⟨⟨later, others⟩, hrest, h⟩ := Result.bind_eq_ok.mp h
    cases h
    exact ⟨start, finish, pieces, later, _, hread, hpieces, hrest, by rw [if_pos hsplit]; simp⟩
  · rename_i hkept
    obtain ⟨s, hs, h⟩ := Result.bind_eq_ok.mp h
    obtain ⟨⟨later, others⟩, hrest, h⟩ := Result.bind_eq_ok.mp h
    cases h
    exact ⟨start, finish, pieces, _, others, hread, hpieces, hrest,
      by rw [if_neg hkept]; exact ⟨s, hs, rfl, rfl⟩⟩

/-- The spans of an entry as they are read, some split into entries of their own and the others
collected, mean the spans as they are written. -/
theorem readSpans_eq_ok {items : List Document} {entries : List ScheduleEntry} {spans : List Span}
    (h : readSpans days true items = .ok (entries, spans)) :
    ∃ bounds, WeeklyEntry.readAllBounds items = .ok bounds ∧ bounds.length = items.length ∧
      ((∀ b ∈ bounds, b.1.InWholeSeconds ∧ b.2.InWholeSeconds) →
        ∃ meant, Mean entries meant ∧ (∀ s ∈ spans, s.Inside) ∧
          ∀ t, (meant t ∨ days.mem t.weekday ∧ ∃ s ∈ spans, s.Contains t) ↔
            ∃ b ∈ bounds, days.SpanCovers b.1 b.2 t) := by
  induction items generalizing entries spans with
  | nil =>
    cases h
    exact ⟨[], rfl, rfl, fun _ => ⟨_, mean_nil, by simp, by simp⟩⟩
  | cons span rest ih =>
    obtain ⟨start, finish, pieces, later, others, hread, hpieces, hrest, h⟩ := readSpans_cons_eq_ok h
    obtain ⟨bounds, hbounds, hlength, hmean⟩ := ih hrest
    refine ⟨(start, finish) :: bounds, by simp [WeeklyEntry.readAllBounds, hread, hbounds],
      by simp [hlength], fun hwhole => ?_⟩
    obtain ⟨⟨hstart, hfinish⟩, hwholeRest⟩ := List.forall_mem_cons.mp hwhole
    obtain ⟨meant, hlater, hinside, hcover⟩ := hmean hwholeRest
    have hspan := splitOvernight_eq_ok hstart hfinish hpieces
    simp only [List.mem_cons, exists_eq_or_imp, ← hcover]
    by_cases hsplit : 1 < pieces.length
    · rw [if_pos hsplit] at h hspan
      obtain ⟨rfl, rfl⟩ := h
      exact ⟨_, hspan.append hlater, hinside, fun t => or_assoc⟩
    · rw [if_neg hsplit] at h hspan
      obtain ⟨s, hs, rfl, rfl⟩ := h
      obtain ⟨s', hs', hmeans⟩ := hspan
      obtain rfl : s = s' := by simpa [hs] using hs'
      have hsInside := (Span.make_eq_ok hstart hfinish hs).2.1
      refine ⟨meant, hlater, List.forall_mem_cons.mpr ⟨hsInside, hinside⟩, fun t => ?_⟩
      simp only [List.mem_cons, exists_eq_or_imp, hmeans t, and_or_left]
      exact or_left_comm

theorem itemsOf_ne_nil {d : Document} {items : List Document} (hset : d.isSet = true)
    (h : itemsOf d = .ok items) : items ≠ [] := by
  cases d with
  | list xs =>
    cases h
    simpa [Document.isSet] using hset
  | text s =>
    cases h
    simpa [Document.isSet] using hset
  | object entries =>
    cases h
    simpa [Document.isSet] using hset
  | null => cases h
  | bool b => cases h
  | number x => cases h

theorem readEntry_object_eq_ok {fields : List (String × Document)} {entries : List ScheduleEntry}
    (h : readEntry true (.object fields) = .ok entries) :
    ∃ days, DaySet.parse
        ((Document.entry? "days" fields).getD ((Document.entry? "day" fields).getD .null)) = .ok days ∧
      if ((Document.entry? "during" fields).getD (.list [])).isSet = false then entries = [⟨days, []⟩]
      else ∃ items split spans,
        itemsOf ((Document.entry? "during" fields).getD (.list [])) = .ok items ∧
        readSpans days true items = .ok (split, spans) ∧
        entries = split ++ if spans = [] then [] else [⟨days, spans⟩] := by
  rw [readEntry] at h
  dsimp only at h
  split at h
  · cases h
  · obtain ⟨days, hdays, h⟩ := Result.bind_eq_ok.mp h
    refine ⟨days, ?_, ?_⟩
    · cases hentry : Document.entry? "days" fields <;> simpa [hentry] using hdays
    split at h
    · rename_i hunset
      obtain ⟨entry, hentry, h⟩ := Result.bind_eq_ok.mp h
      cases h
      rw [if_pos (by simpa using hunset), ScheduleEntry.make_eq_ok hentry]
    · rename_i hset
      obtain ⟨items, hitems, h⟩ := Result.bind_eq_ok.mp h
      obtain ⟨⟨split, spans⟩, hspans, h⟩ := Result.bind_eq_ok.mp h
      rw [if_neg (by simpa using hset)]
      refine ⟨items, split, spans, hitems, hspans, ?_⟩
      dsimp only at h
      split at h
      · rename_i hempty
        cases h
        rw [if_pos (List.isEmpty_iff.mp hempty), List.append_nil]
      · rename_i hsome
        obtain ⟨entry, hentry, h⟩ := Result.bind_eq_ok.mp h
        cases h
        rw [if_neg (fun h => hsome (List.isEmpty_iff.mpr h)), ScheduleEntry.make_eq_ok hentry]

/-- The entries that one entry of a configuration stands for mean that entry as it is written. -/
theorem readEntry_eq_ok {raw : Document} {entries : List ScheduleEntry}
    (h : readEntry true raw = .ok entries) :
    ∃ written, WeeklyEntry.read raw = .ok written ∧
      (written.InWholeSeconds → Mean entries written.Covers) := by
  cases raw with
  | object fields =>
    obtain ⟨days, hdays, h⟩ := readEntry_object_eq_ok h
    split at h
    · rename_i hunset
      refine ⟨⟨days, []⟩, by simp [WeeklyEntry.read, hdays, hunset], fun _ => ?_⟩
      rw [h]
      refine ⟨by simp [Inside], fun t => ?_⟩
      simp [contains_of_spans_eq_nil, WeeklyEntry.Covers]
    · rename_i hset
      obtain ⟨items, split, spans, hitems, hspans, rfl⟩ := h
      obtain ⟨bounds, hbounds, hlength, hmean⟩ := readSpans_eq_ok hspans
      refine ⟨⟨days, bounds⟩, by simp [WeeklyEntry.read, hdays, hset, hitems, hbounds],
        fun hwhole => ?_⟩
      obtain ⟨meant, hsplit, hinside, hcover⟩ := hmean hwhole
      have hne : bounds ≠ [] := by
        rw [← List.length_pos_iff, hlength, List.length_pos_iff]
        exact itemsOf_ne_nil (by simpa using hset) hitems
      have hcollected : Mean (if spans = [] then [] else [⟨days, spans⟩])
          fun t => days.mem t.weekday ∧ ∃ s ∈ spans, s.Contains t := by
        -- Without spans of its own an entry must not be made: it would stand for whole days.
        split
        · rename_i hempty
          simpa [hempty] using mean_nil
        · rename_i hsome
          exact mean_singleton _ hsome hinside
      refine (hsplit.append hcollected).congr fun t => ?_
      rw [hcover t, WeeklyEntry.Covers, if_neg hne]
  | null => cases h
  | bool b => cases h
  | number x => cases h
  | text s => cases h
  | list items => cases h

theorem readEntries_eq_ok {items : List Document} {entries : List ScheduleEntry}
    (h : readEntries true items = .ok entries) :
    ∃ written, WeeklyEntry.readAll items = .ok written ∧
      ((∀ e ∈ written, e.InWholeSeconds) → Mean entries fun t => ∃ e ∈ written, e.Covers t) := by
  induction items generalizing entries with
  | nil =>
    cases h
    exact ⟨[], rfl, fun _ => by simpa using mean_nil⟩
  | cons raw rest ih =>
    rw [readEntries] at h
    obtain ⟨first, hfirst, h⟩ := Result.bind_eq_ok.mp h
    obtain ⟨later, hlater, h⟩ := Result.bind_eq_ok.mp h
    cases h
    obtain ⟨e, he, hmeanFirst⟩ := readEntry_eq_ok hfirst
    obtain ⟨written, hwritten, hmeanLater⟩ := ih hlater
    refine ⟨e :: written, by simp [WeeklyEntry.readAll, he, hwritten], fun hwhole => ?_⟩
    obtain ⟨heWhole, hrestWhole⟩ := List.forall_mem_cons.mp hwhole
    refine ((hmeanFirst heWhole).append (hmeanLater hrestWhole)).congr fun t => ?_
    simp only [List.mem_cons, exists_eq_or_imp]

/-- A schedule that is read classifies every moment, but for the last day of the calendar, as the
entries of its configuration say as they are written: no matter into which pieces spans over midnight
were split. -/
theorem classify_eq_window {data : Document} {schedule : Schedule}
    (h : parse data true = .ok schedule) :
    ∃ plan, WeeklyPlan.read data = .ok plan ∧ (plan.InWholeSeconds →
      ∀ (t : Moment) (solar : SolarCalendar), t.InCalendar → (t.plus .day).InCalendar →
        schedule.classify t solar = .ok (plan.window t)) := by
  cases data with
  | object fields =>
    obtain ⟨enabled, henabled, h⟩ := Result.bind_eq_ok.mp h
    obtain ⟨forbidden, hforbidden, h⟩ := Result.bind_eq_ok.mp h
    cases h
    obtain ⟨enabledItems, henabledItems, henabled⟩ := Result.bind_eq_ok.mp henabled
    obtain ⟨forbiddenItems, hforbiddenItems, hforbidden⟩ := Result.bind_eq_ok.mp hforbidden
    obtain ⟨enabledWritten, henabledRead, henabledMean⟩ := readEntries_eq_ok henabled
    obtain ⟨forbiddenWritten, hforbiddenRead, hforbiddenMean⟩ := readEntries_eq_ok hforbidden
    refine ⟨⟨enabledWritten, forbiddenWritten⟩, ?_, fun hwhole t solar ht hnext => ?_⟩
    · simp [WeeklyPlan.read, Document.get?, henabledItems, henabledRead, hforbiddenItems,
        hforbiddenRead]
    · have hmeanEnabled := henabledMean hwhole.1
      have hmeanForbidden := hforbiddenMean hwhole.2
      rw [classify_of_inside hmeanEnabled.1 hmeanForbidden.1 ht hnext, WeeklyPlan.window]
      simp only [hmeanEnabled.2 t, hmeanForbidden.2 t]
  | null => cases h
  | bool b => cases h
  | number x => cases h
  | text s => cases h
  | list items => cases h

/-- Sunday nights up to six hours after midnight, without the time around one. -/
def nights : Document :=
  .object
    [("enabled_at", .list [.object [("days", .text "sun"),
        ("during", .list [.list [.text "22:00", .text "MIDNIGHT+6h"]])]]),
      ("forbidden_at", .list [.object [("day", .text "monday"),
        ("during", .list [.list [.int 30, .int 130]])]])]

def earlyMonday : Moment := .onDay 7 (5 * 3600 * Duration.perSecond) (some 0)

theorem classify_eq_window_nights :
    ∃ schedule, parse nights true = .ok schedule ∧ schedule.classify earlyMonday {} = .ok .allowed := by
  have hloads : (parse nights true).toOption.isSome = true := by decide +kernel
  have hplan : (WeeklyPlan.read nights).toOption.all
      (fun plan => plan.InWholeSeconds ∧ plan.window earlyMonday = .allowed) = true := by
    decide +kernel
  cases hparse : parse nights true with
  | error fault => simp [hparse, Except.toOption] at hloads
  | ok schedule =>
    obtain ⟨plan, hread, hmeaning⟩ := classify_eq_window hparse
    simp only [hread, Except.toOption, Option.all_some, decide_eq_true_eq] at hplan
    refine ⟨schedule, rfl, ?_⟩
    rw [hmeaning hplan.1 earlyMonday {} (by decide) (by decide), hplan.2]

end Schedule
end Domotics
