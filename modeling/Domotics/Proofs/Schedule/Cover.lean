import Domotics.Proofs.Result
import Domotics.Proofs.Schedule.Weekly
import Domotics.Proofs.Time.Order

/-!
What a schedule says about a moment, when its spans lie within their days: the moment is compared with
the bounds as a time of day.
-/

namespace Domotics

variable {t : Moment}

@[simp] theorem Duration.day_micros : Duration.day.micros = Duration.perDay := rfl

@[simp] theorem Duration.zero_micros : Duration.zero.micros = 0 := rfl

namespace Moment

@[simp] theorem plus_zero (t : Moment) : t.plus .zero = t := by
  simp [plus, Duration.zero]

theorem zero_le_timeOfDay (t : Moment) : 0 ≤ t.timeOfDay.micros := by
  simp only [timeOfDay, Duration.perDay, Duration.perSecond]
  omega

theorem timeOfDay_lt (t : Moment) : t.timeOfDay.micros < Duration.perDay := by
  simp only [timeOfDay, Duration.perDay, Duration.perSecond]
  omega

theorem ticks_eq (ht : t.InCalendar) : t.ticks = t.day * Duration.perDay + t.timeOfDay.micros := by
  have hnonneg := ht.1
  simp only [day, timeOfDay, Duration.perDay, Duration.perSecond]
  omega

theorem startOf_plus_inCalendar {d : Duration} (ht : t.InCalendar) (hnext : (t.plus .day).InCalendar)
    (hnonneg : 0 ≤ d.micros) (hle : d.micros ≤ Duration.perDay) :
    ((startOf t.day t.offset).plus d).InCalendar := by
  have hticks := ticks_eq ht
  have hx := zero_le_timeOfDay t
  simp only [InCalendar, plus_ticks, startOf, onDay, Duration.day, Day.count, Duration.perDay,
    Duration.perSecond] at *
  omega

theorem startOf_plus_timeOfDay (ht : t.InCalendar) :
    (startOf t.day t.offset).plus t.timeOfDay = t := by
  have hticks := ticks_eq ht
  rw [plus, startOf, onDay]
  simp [← hticks]

theorem order_plus (start : Moment) (d e : Duration) :
    (start.plus d).order (start.plus e) = .ok (compare d.micros e.micros) := by
  refine order_eq_ok_iff.mpr ⟨rfl, ?_⟩
  simp only [instant, plus_ticks, plus_offset, compare, compareOfLessAndEq]
  grind

theorem startOf_plus_order (ht : t.InCalendar) (d : Duration) :
    ((startOf t.day t.offset).plus d).order t = .ok (compare d.micros t.timeOfDay.micros) := by
  simpa only [startOf_plus_timeOfDay ht] using order_plus (startOf t.day t.offset) d t.timeOfDay

theorem order_startOf_plus (ht : t.InCalendar) (d : Duration) :
    t.order ((startOf t.day t.offset).plus d) = .ok (compare t.timeOfDay.micros d.micros) := by
  simpa only [startOf_plus_timeOfDay ht] using order_plus (startOf t.day t.offset) t.timeOfDay d

end Moment

namespace Bound

variable {b : Bound} {closing : Bool}

theorem fixed_of_inWholeSeconds (hb : b.InWholeSeconds) :
    b.fixed closing = some ⟨b.fromDayStart closing⟩ := by
  obtain ⟨base, offset⟩ := b
  cases base with
  | clock c =>
    have hmicro : c.micro = 0 := hb.1
    simp [fixed, fromDayStart, Clock.sinceMidnight, Duration.ofSeconds, Duration.plus, hmicro]
  | anchor a =>
    obtain rfl : a = .midnight := hb.1
    cases closing <;> simp [fixed, fromDayStart, Duration.day, Duration.zero, Duration.plus]

theorem fixedOffset_eq_ok (hb : b.InWholeSeconds) {known : Option Duration}
    (h : b.fixedOffset closing = .ok known) : known = some ⟨b.fromDayStart closing⟩ := by
  simp only [fixedOffset, fixed_of_inWholeSeconds hb, Duration.check] at h
  split at h
  · cases h
    rfl
  · cases h

/-- A bound that is not solar lies some time after the beginning of its day, and not beyond its end. -/
structure LiesAt (b : Bound) (closing : Bool) (d : Duration) : Prop where
  fixed : b.fixed closing = some d
  nonneg : .zero ≤ d
  le_day : d ≤ .day

section

variable {d : Duration}

theorem LiesAt.fixedOffset (hb : b.LiesAt closing d) : b.fixedOffset closing = .ok (some d) := by
  have hnonneg := hb.nonneg
  have hle := hb.le_day
  have hrepresentable : d.Representable := by
    simp only [Duration.le_def, Duration.zero_micros, Duration.day_micros, Duration.Representable,
      Duration.wholeDays, Duration.maxDays, Duration.perDay, Duration.perSecond] at *
    omega
  simp [Bound.fixedOffset, hb.fixed, Duration.check, hrepresentable, Except.map]

theorem LiesAt.resolve (hb : b.LiesAt closing d) (ht : t.InCalendar) (hnext : (t.plus .day).InCalendar)
    (solar : SolarCalendar) :
    b.resolve t.day t.offset solar closing = .ok ((Moment.startOf t.day t.offset).plus d) := by
  rw [Bound.resolve, hb.fixedOffset, Result.ok_bind]
  exact Moment.shift_eq_ok_iff.mpr ⟨rfl, Moment.startOf_plus_inCalendar ht hnext hb.nonneg hb.le_day⟩

end

structure Inside (b : Bound) (closing : Bool) : Prop where
  wholeSeconds : b.InWholeSeconds
  nonneg : 0 ≤ b.fromDayStart closing
  le_day : b.fromDayStart closing ≤ Duration.perDay

theorem Inside.liesAt (hb : b.Inside closing) : b.LiesAt closing ⟨b.fromDayStart closing⟩ :=
  ⟨fixed_of_inWholeSeconds hb.wholeSeconds, hb.nonneg, hb.le_day⟩

theorem inside_midnight (closing : Bool) : midnight.Inside closing := by
  cases closing <;> refine ⟨?_, ?_, ?_⟩ <;> decide

end Bound

namespace Span

variable {s : Span}

structure Inside (s : Span) : Prop where
  start : s.start.Inside false
  finish : s.finish.Inside true

def Contains (s : Span) (t : Moment) : Prop :=
  s.start.fromDayStart false ≤ t.timeOfDay.micros ∧ t.timeOfDay.micros < s.finish.fromDayStart true

instance (s : Span) (t : Moment) : Decidable (s.Contains t) := by
  unfold Contains
  infer_instance

theorem inside_fullDay : fullDay.Inside := ⟨Bound.inside_midnight false, Bound.inside_midnight true⟩

theorem contains_fullDay (t : Moment) : fullDay.Contains t :=
  ⟨t.zero_le_timeOfDay, t.timeOfDay_lt⟩

/-- A span between two times of its day covers the times from the first up to the second. -/
theorem covers_of_liesAt {d e : Duration} (hstart : s.start.LiesAt false d) (hfinish : s.finish.LiesAt true e)
    (ht : t.InCalendar) (hnext : (t.plus .day).InCalendar) (solar : SolarCalendar) :
    s.covers t solar = .ok (decide (d.micros ≤ t.timeOfDay.micros ∧ t.timeOfDay.micros < e.micros)) := by
  have hnotBefore : ((Moment.startOf t.day t.offset).plus d).order (Moment.startOf t.day t.offset) =
      .ok (compare d.micros 0) := by
    simpa only [Moment.plus_zero, Duration.zero_micros] using
      Moment.order_plus (Moment.startOf t.day t.offset) d .zero
  have hdayEnd : (Moment.startOf t.day t.offset).shift .day =
      .ok ((Moment.startOf t.day t.offset).plus .day) :=
    Moment.shift_eq_ok_iff.mpr
      ⟨rfl, Moment.startOf_plus_inCalendar ht hnext (by decide) (Int.le_refl _)⟩
  have hstartDay : ¬ d.micros < 0 := Int.not_lt.mpr hstart.nonneg
  have hfinishDay : ¬ (Duration.perDay : Int) < e.micros := Int.not_lt.mpr hfinish.le_day
  rw [Span.covers, hstart.resolve ht hnext, hfinish.resolve ht hnext]
  simp only [Result.ok_bind, Moment.order_plus, hnotBefore, hdayEnd, Moment.startOf_plus_order ht,
    Moment.order_startOf_plus ht, Duration.day_micros, Int.compare_eq_lt, Int.compare_eq_gt, hstartDay,
    hfinishDay, if_false, Result.pure_eq_ok]
  by_cases hempty : e.micros < d.micros
  · have hmiss : ¬ (d.micros ≤ t.timeOfDay.micros ∧ t.timeOfDay.micros < e.micros) := fun h => by
      have := Int.lt_of_le_of_lt h.1 h.2
      omega
    rw [if_pos hempty, decide_eq_false hmiss]
  · rw [if_neg hempty]
    by_cases hbefore : t.timeOfDay.micros < d.micros
    · rw [if_pos hbefore, decide_eq_false fun h => Int.not_lt.mpr h.1 hbefore]
    · rw [if_neg hbefore, decide_eq_decide.mpr (and_iff_right (Int.not_lt.mp hbefore)).symm]

/-- A span within the day covers the times of day from its start up to its end. -/
theorem Inside.covers (hs : s.Inside) (ht : t.InCalendar) (hnext : (t.plus .day).InCalendar)
    (solar : SolarCalendar) : s.covers t solar = .ok (decide (s.Contains t)) :=
  covers_of_liesAt hs.start.liesAt hs.finish.liesAt ht hnext solar

end Span

namespace ScheduleEntry

def Inside (e : ScheduleEntry) : Prop := ∀ s ∈ e.spans, s.Inside

def Contains (e : ScheduleEntry) (t : Moment) : Prop :=
  e.days.mem t.weekday ∧ ∃ s ∈ e.effectiveSpans, s.Contains t

instance (e : ScheduleEntry) (t : Moment) : Decidable (e.Contains t) := by
  unfold Contains
  infer_instance

theorem Inside.effectiveSpans {e : ScheduleEntry} (he : e.Inside) : ∀ s ∈ e.effectiveSpans, s.Inside := by
  intro s hs
  rw [ScheduleEntry.effectiveSpans] at hs
  split at hs
  · rw [List.mem_singleton.mp hs]
    exact Span.inside_fullDay
  · exact he s hs

theorem contains_of_spans_eq_nil {days : DaySet} :
    (ScheduleEntry.mk days []).Contains t ↔ days.mem t.weekday := by
  simp [Contains, ScheduleEntry.effectiveSpans, Span.contains_fullDay]

theorem contains_of_spans_ne_nil {days : DaySet} {spans : List Span} (h : spans ≠ []) :
    (ScheduleEntry.mk days spans).Contains t ↔ days.mem t.weekday ∧ ∃ s ∈ spans, s.Contains t := by
  simp [Contains, ScheduleEntry.effectiveSpans, h]

end ScheduleEntry

namespace Schedule

variable {solar : SolarCalendar}

theorem anySpan_of_inside {spans : List Span} (hspans : ∀ s ∈ spans, s.Inside) (ht : t.InCalendar)
    (hnext : (t.plus .day).InCalendar) :
    anySpan t solar spans = .ok (decide (∃ s ∈ spans, s.Contains t)) := by
  induction spans with
  | nil => simp [anySpan]
  | cons s rest ih =>
    obtain ⟨hs, hrest⟩ := List.forall_mem_cons.mp hspans
    rw [anySpan, hs.covers ht hnext, Result.ok_bind, ih hrest]
    by_cases hcontains : s.Contains t <;> simp [hcontains]

theorem anyEntry_of_inside {entries : List ScheduleEntry} (hentries : ∀ e ∈ entries, e.Inside)
    (ht : t.InCalendar) (hnext : (t.plus .day).InCalendar) :
    anyEntry t solar entries = .ok (decide (∃ e ∈ entries, e.Contains t)) := by
  induction entries with
  | nil => simp [anyEntry]
  | cons e rest ih =>
    obtain ⟨he, hrest⟩ := List.forall_mem_cons.mp hentries
    rw [anyEntry, anySpan_of_inside he.effectiveSpans ht hnext, Result.ok_bind, ih hrest]
    by_cases hcontains : e.Contains t
    · simp [hcontains, hcontains.1, hcontains.2]
    · by_cases hday : e.days.mem t.weekday
      · have hspan : ¬ ∃ s ∈ e.effectiveSpans, s.Contains t := fun h => hcontains ⟨hday, h⟩
        simp [hcontains, hday, hspan]
      · simp [hcontains, hday]

theorem classify_of_inside {s : Schedule} (henabled : ∀ e ∈ s.enabled, e.Inside)
    (hforbidden : ∀ e ∈ s.forbidden, e.Inside) (ht : t.InCalendar)
    (hnext : (t.plus .day).InCalendar) :
    s.classify t solar = .ok (if ∃ e ∈ s.forbidden, e.Contains t then .forbidden
      else if ∃ e ∈ s.enabled, e.Contains t then .allowed else .neutral) := by
  rw [classify, anyEntry_of_inside hforbidden ht hnext, anyEntry_of_inside henabled ht hnext]
  simp only [Result.ok_bind, Result.pure_eq_ok, decide_eq_true_eq]
  by_cases hf : ∃ e ∈ s.forbidden, e.Contains t
  · rw [if_pos hf, if_pos hf]
  · rw [if_neg hf, if_neg hf]
    by_cases he : ∃ e ∈ s.enabled, e.Contains t
    · rw [if_pos he, if_pos he]
    · rw [if_neg he, if_neg he]

end Schedule
end Domotics
