import Domotics.Proofs.Schedule.Cover
import Domotics.Proofs.Schedule.Place

/-!
Schedules are weekly. Where the sun has the same times on every day, the bounds of a day move by seven days
with the day, and no comparison of two moments notices that both have moved. So a schedule says of the same
time a week later what it says of a moment, or fails for the same cause, as long as no limit of the calendar
comes in between.
-/

namespace Domotics

def Duration.week : Duration := ⟨7 * perDay⟩

namespace Moment

def weekLater (t : Moment) : Moment := t.plus .week

/-- No limit of the calendar lies between a moment and the same time a week later. -/
def NoLimitAhead (t : Moment) : Prop := t.InCalendar ↔ t.weekLater.InCalendar

instance (t : Moment) : Decidable t.NoLimitAhead := by unfold NoLimitAhead; infer_instance

variable {t u : Moment} {offset : Option Int}

@[simp] theorem weekLater_offset (t : Moment) : t.weekLater.offset = t.offset := rfl

theorem weekLater_plus (t : Moment) (d : Duration) : t.weekLater.plus d = (t.plus d).weekLater := by
  rw [weekLater, weekLater, plus_plus, plus_plus, Duration.plus, Duration.plus, Int.add_comm]

theorem weekLater_day (h : t.InCalendar) : (t.weekLater.day : Nat) = t.day + 7 := by
  have hnonneg := h.1
  simp only [day, weekLater, plus_ticks, Duration.week, Duration.perDay, Duration.perSecond]
  show Int.toNat _ = Int.toNat _ + 7
  omega

theorem weekLater_weekday (h : t.InCalendar) : t.weekLater.weekday = t.weekday := by
  refine Fin.ext ?_
  simp only [weekday, weekLater_day h, Day.weekday_val]
  omega

theorem startOf_add_seven (d : Nat) (offset : Option Int) :
    startOf (d + 7 : Nat) offset = (startOf d offset).weekLater := by
  have hticks : ((d + 7 : Nat) : Int) * Duration.perDay + (0 : Nat) =
      d * Duration.perDay + (0 : Nat) + 7 * Duration.perDay := by
    rw [Int.natCast_add, Int.add_mul]
    omega
  exact congrArg (Moment.mk · offset) hticks

/-- Two moments that both move by a week stay in order, or stay without one. -/
theorem order_weekLater (t u : Moment) : t.weekLater.order u.weekLater = t.order u := by
  have hsame : compare t.weekLater.instant u.weekLater.instant = compare t.instant u.instant := by
    simp only [weekLater, instant_plus, compare, compareOfLessAndEq]
    grind
  simp only [order, compare?, Comparable, weekLater_offset, hsame]

theorem ifInCalendar_weekLater (h : t.NoLimitAhead) : t.weekLater.ifInCalendar = t.ifInCalendar.map weekLater := by
  rw [ifInCalendar, ifInCalendar]
  by_cases hin : t.InCalendar
  · rw [if_pos hin, if_pos (h.mp hin)]
    rfl
  · rw [if_neg hin, if_neg (mt h.mpr hin)]
    rfl

theorem shift_weekLater {d : Duration} (h : (t.plus d).NoLimitAhead) :
    t.weekLater.shift d = (t.shift d).map weekLater := by
  rw [shift_eq, shift_eq, weekLater_plus, ifInCalendar_weekLater h]

end Moment

namespace Bound

variable {b : Bound} {day : Day} {offset sunOffset : Option Int} {solar : SolarCalendar} {isEnd : Bool}

theorem place_add_seven (hsolar : solar.Fixed sunOffset) (b : Bound) (day : Nat) (offset : Option Int)
    (isEnd : Bool) :
    b.place (day + 7 : Nat) offset solar isEnd = (b.place day offset solar isEnd).weekLater := by
  have htime (a : Anchor) : solar.time (day + 7 : Nat) a = (solar.time day a).weekLater := by
    rw [hsolar.time, hsolar.time, Moment.startOf_add_seven, Moment.weekLater_plus]
  rw [place.eq_def, place.eq_def]
  cases b.fixed isEnd with
  | some d => exact (congrArg (Moment.plus · d) (Moment.startOf_add_seven ..)).trans (Moment.weekLater_plus ..)
  | none => exact (congrArg (Moment.plus · b.offset) (htime _)).trans (Moment.weekLater_plus ..)

/-- A bound resolves to the same time a week later, or fails for the same cause. -/
theorem resolve_add_seven (hsolar : solar.Fixed sunOffset)
    (h : (b.place day offset solar isEnd).NoLimitAhead) :
    b.resolve (day + 7) offset solar isEnd = (b.resolve day offset solar isEnd).map Moment.weekLater := by
  rw [resolve_eq, resolve_eq, place_add_seven hsolar, Moment.ifInCalendar_weekLater h]
  cases b.fixedOffset isEnd <;> rfl

end Bound

variable {t : Moment} {solar : SolarCalendar} {sunOffset : Option Int}

/-- On the day of a moment no limit of the calendar lies between either bound of a span and the same bound a
week later. This holds too of a bound that the calendar reaches on neither day. -/
structure Span.NoLimitAhead (s : Span) (t : Moment) (solar : SolarCalendar) : Prop where
  start : (s.start.place t.day t.offset solar false).NoLimitAhead
  finish : (s.finish.place t.day t.offset solar true).NoLimitAhead

instance (s : Span) (t : Moment) (solar : SolarCalendar) : Decidable (s.NoLimitAhead t solar) :=
  decidable_of_iff (_ ∧ _) ⟨fun h => ⟨h.1, h.2⟩, fun h => ⟨h.1, h.2⟩⟩

namespace Moment

def WithinLimits (t : Moment) : Prop := t.InCalendar ∧ (t.weekLater.plus .day).InCalendar

instance (t : Moment) : Decidable t.WithinLimits := by unfold WithinLimits; infer_instance

variable {d : Duration}

/-- Every time of a day, and the end of the day, is in the calendar together with the same time a week later. -/
theorem WithinLimits.noLimitAhead (h : t.WithinLimits) (hnonneg : 0 ≤ d.micros)
    (hle : d.micros ≤ Duration.perDay) : ((startOf t.day t.offset).plus d).NoLimitAhead := by
  have hticks := ticks_eq h.1
  have htimeOfDay := zero_le_timeOfDay t
  have hlast := h.2.2
  have hbegin : (startOf t.day t.offset).ticks = t.day * Duration.perDay := Int.add_zero _
  constructor <;> intro
  all_goals
    simp only [InCalendar, weekLater, plus_ticks, hbegin, Duration.week, Duration.day, Day.count,
      Duration.perDay, Duration.perSecond] at *
    omega

end Moment

namespace Span

variable {s : Span}

theorem noLimitAhead_fullDay (h : t.WithinLimits) : fullDay.NoLimitAhead t solar where
  start := h.noLimitAhead (Int.le_refl 0) (by decide)
  finish := h.noLimitAhead (by decide) (Int.le_refl _)

/-- A span covers a moment just if it covers the same time a week later. -/
theorem covers_weekLater (hsolar : solar.Fixed sunOffset) (ht : t.WithinLimits)
    (hs : s.NoLimitAhead t solar) : s.covers t.weekLater solar = s.covers t solar := by
  have hend : ((Moment.startOf t.day t.offset).plus .day).NoLimitAhead :=
    ht.noLimitAhead (by decide) (Int.le_refl _)
  have hmap {α : Type} (r : Result Moment) (f : Moment → Result α) :
      (r.map Moment.weekLater >>= f) = r >>= fun u => f u.weekLater := by cases r <;> rfl
  rw [covers, covers, Moment.weekLater_day ht.1, Moment.weekLater_offset,
    Bound.resolve_add_seven hsolar hs.start, Bound.resolve_add_seven hsolar hs.finish,
    Moment.startOf_add_seven]
  simp only [hmap, Moment.shift_weekLater hend, Moment.order_weekLater]

end Span

namespace Schedule

/-- A moment from which, through the day of the same time a week later, a schedule meets no limit of the
calendar. -/
structure NoLimitAhead (s : Schedule) (t : Moment) (solar : SolarCalendar) : Prop where
  day : t.WithinLimits
  spans : ∀ e ∈ s.enabled ++ s.forbidden, ∀ span ∈ e.spans, span.NoLimitAhead t solar

instance (s : Schedule) (t : Moment) (solar : SolarCalendar) : Decidable (s.NoLimitAhead t solar) :=
  decidable_of_iff (_ ∧ _) ⟨fun h => ⟨h.1, h.2⟩, fun h => ⟨h.1, h.2⟩⟩

theorem anySpan_weekLater {spans : List Span} (hsolar : solar.Fixed sunOffset) (ht : t.WithinLimits)
    (h : ∀ s ∈ spans, s.NoLimitAhead t solar) :
    anySpan t.weekLater solar spans = anySpan t solar spans := by
  induction spans with
  | nil => rfl
  | cons s rest ih =>
    obtain ⟨hs, hrest⟩ := List.forall_mem_cons.mp h
    rw [anySpan, anySpan, Span.covers_weekLater hsolar ht hs, ih hrest]

theorem anyEntry_weekLater {entries : List ScheduleEntry} (hsolar : solar.Fixed sunOffset)
    (ht : t.WithinLimits) (h : ∀ e ∈ entries, ∀ s ∈ e.spans, s.NoLimitAhead t solar) :
    anyEntry t.weekLater solar entries = anyEntry t solar entries := by
  induction entries with
  | nil => rfl
  | cons e rest ih =>
    obtain ⟨he, hrest⟩ := List.forall_mem_cons.mp h
    have hspans : ∀ s ∈ e.effectiveSpans, s.NoLimitAhead t solar := by
      intro s hs
      rw [ScheduleEntry.effectiveSpans] at hs
      split at hs
      · exact List.mem_singleton.mp hs ▸ Span.noLimitAhead_fullDay ht
      · exact he s hs
    rw [anyEntry, anyEntry, Moment.weekLater_weekday ht.1, anySpan_weekLater hsolar ht hspans, ih hrest]

/-- A schedule is weekly: of the same time a week later it says what it says of a moment, or fails for the same
cause. The sun may have any times and any offset, and so may the bounds. -/
theorem classify_weekLater {s : Schedule} (hsolar : solar.Fixed sunOffset) (h : s.NoLimitAhead t solar) :
    s.classify t.weekLater solar = s.classify t solar := by
  obtain ⟨henabled, hforbidden⟩ := List.forall_mem_append.mp h.spans
  rw [classify, classify, anyEntry_weekLater hsolar h.day henabled,
    anyEntry_weekLater hsolar h.day hforbidden]

def easternSun : SolarCalendar := { offset := some (2 * 3600 * Duration.perSecond) }

/-- The evenings of Mondays, as the first day of the calendar is one, from an hour before sunset on. The night
after sunset does not fit its day, so that it is never forbidden. -/
def dusk : Schedule :=
  let sunset (hours : Int) : Bound := ⟨.anchor .sunset, .ofSeconds (hours * 3600)⟩
  { enabled := [⟨.single (Day.weekday 0), [⟨sunset (-1), .midnight⟩]⟩]
    forbidden := [⟨.full, [⟨sunset 0, sunset 9⟩]⟩] }

def mondayAfternoon : Moment := .onDay 7 (15 * 3600 * Duration.perSecond + 1800 * Duration.perSecond) (some 0)

theorem classify_weekLater_dusk :
    easternSun.Fixed (some (2 * 3600 * Duration.perSecond)) ∧
      dusk.NoLimitAhead mondayAfternoon easternSun ∧
      dusk.classify mondayAfternoon easternSun = .ok .allowed ∧
      dusk.classify mondayAfternoon.weekLater easternSun = .ok .allowed := by
  have hclear : dusk.NoLimitAhead mondayAfternoon easternSun := by decide +kernel
  have hnow : dusk.classify mondayAfternoon easternSun = .ok .allowed :=
    Result.ok_of_toOption (by decide +kernel)
  have hsun : easternSun.Fixed (some (2 * 3600 * Duration.perSecond)) := ⟨rfl, rfl⟩
  exact ⟨hsun, hclear, hnow, (classify_weekLater hsun hclear).trans hnow⟩

end Schedule
end Domotics
