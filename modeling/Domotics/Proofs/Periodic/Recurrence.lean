import Domotics.Proofs.Periodic.Timer

/-!
When the next periodic fire can be planned over and over again. On a fixed calendar a bound lies at the
same distance from the beginning of each of its days. The search for its next time covers the present
day and the fourteen days after it, so that it never comes to nothing if no bound lies too far before its
day: seven days for a bound on one weekday, and thirteen for one on every day.
-/

namespace Domotics

variable {solar : SolarCalendar} {offset : Option Int} {t : Moment}

theorem Moment.ticks_lt_of_day {n : Nat} (h : t.day = n) : t.ticks < (n + 1) * Duration.perDay := by
  subst h
  simp only [day, Duration.perDay, Duration.perSecond]
  omega

namespace SolarCalendar

/-- A calendar with the same times on every day, all of them with one offset. -/
structure Fixed (s : SolarCalendar) (offset : Option Int) : Prop where
  almanac : s.almanac = fun _ _ => none
  offset : s.offset = offset

theorem Fixed.time (h : solar.Fixed offset) (day : Day) (a : Anchor) :
    solar.time day a = (Moment.startOf day offset).plus ⟨(solar.usual 0 a).ticks⟩ := by
  simp [SolarCalendar.time, h.almanac, usual, h.offset, Moment.startOf, Moment.onDay, Moment.plus]

end SolarCalendar

namespace Bound

variable {b : Bound}

def fromMidnight (b : Bound) (solar : SolarCalendar) : Int :=
  b.offset.micros + match b.base with
    | .clock c => (Duration.ofSeconds ((c.hour * 60 + c.minute) * 60 + c.second)).micros
    | .anchor a => (solar.usual 0 a).ticks

theorem fixed_eq_some {d : Duration} (h : b.fixed false = some d) : d.micros = b.fromMidnight solar := by
  obtain ⟨base, offset⟩ := b
  cases base with
  | clock c =>
    cases h
    simp [fromMidnight, Int.add_comm]
  | anchor a =>
    cases a with
    | midnight =>
      cases h
      simp [fromMidnight, SolarCalendar.usual, Moment.onDay, Duration.zero]
    | sunrise => cases h
    | sunset => cases h
    | noon => cases h

theorem resolve_of_fixed (hsolar : solar.Fixed offset) {day : Nat} (hday : day < Day.count)
    (h : ((Moment.startOf day offset).plus ⟨b.fromMidnight solar⟩).InCalendar) :
    b.resolve day offset solar false = .ok ((Moment.startOf day offset).plus ⟨b.fromMidnight solar⟩) := by
  rw [resolve, fixedOffset]
  cases hfixed : b.fixed false with
  | some d =>
    obtain rfl : d = ⟨b.fromMidnight solar⟩ := congrArg Duration.mk (fixed_eq_some hfixed)
    have hrepresentable : (Duration.mk (b.fromMidnight solar)).Representable := by
      simp only [Moment.InCalendar, Moment.startOf, Moment.onDay, Moment.plus_ticks,
        Duration.Representable, Duration.wholeDays, Duration.maxDays, Day.count, Duration.perDay,
        Duration.perSecond] at *
      omega
    simp only [Duration.check, if_pos hrepresentable, Except.map, Result.ok_bind]
    exact Moment.shift_eq_ok_iff.mpr ⟨rfl, h⟩
  | none =>
    obtain ⟨base, d⟩ := b
    cases base with
    | clock c => simp [fixed] at hfixed
    | anchor a =>
      have hsame : (solar.time day a).plus d =
          (Moment.startOf day offset).plus ⟨fromMidnight ⟨.anchor a, d⟩ solar⟩ := by
        rw [hsolar.time]
        simp [fromMidnight, Moment.plus, Int.add_comm, Int.add_left_comm]
      rw [Result.ok_bind]
      exact Moment.shift_eq_ok_iff.mpr ⟨hsame.symm, hsame ▸ h⟩

theorem nextOccurrence_of_fixed {weekday : Option Weekday} (hsolar : solar.Fixed t.offset)
    (hnear : -((14 - Day.cycle weekday : Nat) : Int) * Duration.perDay ≤ b.fromMidnight solar)
    (hroom : ∀ k : Nat, k < 15 → t.day + k < Day.count ∧
      ((Moment.startOf (t.day + k) t.offset).plus ⟨b.fromMidnight solar⟩).InCalendar) :
    ∃ u, b.nextOccurrence t solar weekday = .ok u ∧ u.offset = t.offset := by
  have hweek := Day.cycle_le weekday
  obtain ⟨today, htoday⟩ : ∃ n : Nat, t.day = n := ⟨t.day, rfl⟩
  rw [htoday] at hroom
  have hresolve (d : Nat) (hle : today ≤ d) (hlt : d < today + 15) : d < Day.count ∧
      b.resolve d t.offset solar false =
        .ok ((Moment.startOf d t.offset).plus ⟨b.fromMidnight solar⟩) := by
    obtain ⟨k, rfl⟩ := Nat.exists_eq_add_of_le hle
    obtain ⟨hcount, hcalendar⟩ := hroom k (by omega)
    exact ⟨hcount, resolve_of_fixed hsolar hcount hcalendar⟩
  -- The last day that is looked at and suits.
  obtain ⟨last, hfrom, hsuits, hto⟩ := Day.exists_suits weekday (today + (15 - Day.cycle weekday))
  have hend : last < today + 15 := by omega
  have hlast := hresolve last (by omega) hend
  have hafter : ∀ v, b.resolve last t.offset solar false = .ok v → t.Before v := fun v hv => by
    cases hv.symm.trans hlast.2
    have hticks := Moment.ticks_lt_of_day htoday
    refine ⟨rfl, ?_⟩
    simp only [Moment.instant, Moment.startOf, Moment.onDay, Moment.plus_ticks, Moment.plus_offset,
      Duration.perDay, Duration.perSecond] at *
    omega
  obtain ⟨found, u, heq, hfirst, hle⟩ := occurrenceFrom_eq_ok
    (fun d hle hd _ => ⟨_, (hresolve d hle (Nat.lt_of_le_of_lt hd hend)).2, rfl⟩)
    hlast.1 hsuits hafter (by omega) hend
  cases hfirst.resolves.symm.trans (hresolve found hfirst.le (Nat.lt_of_le_of_lt hle hend)).2
  refine ⟨(Moment.startOf found t.offset).plus ⟨b.fromMidnight solar⟩, ?_, rfl⟩
  rw [nextOccurrence, htoday]
  exact heq

end Bound

namespace Periodic

/-- A specification that recurs for ever: a bound does not lie too far before its day. -/
def Recurs (solar : SolarCalendar) : Periodic → Prop
  | every _ => True
  | daily bound weekday =>
    -((14 - Day.cycle weekday : Nat) : Int) * Duration.perDay ≤ bound.fromMidnight solar

/-- A moment around which the calendar has every time that the search for the next one looks at. -/
def Spacious (solar : SolarCalendar) (t : Moment) : Periodic → Prop
  | every interval => (t.plus interval).InCalendar
  | daily bound _ => ∀ k : Nat, k < 15 → t.day + k < Day.count ∧
      ((Moment.startOf (t.day + k) t.offset).plus ⟨bound.fromMidnight solar⟩).InCalendar

instance (solar : SolarCalendar) : (spec : Periodic) → Decidable (spec.Recurs solar)
  | every _ => inferInstanceAs (Decidable True)
  | daily bound _ => inferInstanceAs (Decidable (_ ≤ bound.fromMidnight solar))

instance (solar : SolarCalendar) (t : Moment) : (spec : Periodic) → Decidable (spec.Spacious solar t)
  | every interval => inferInstanceAs (Decidable (t.plus interval).InCalendar)
  | daily bound _ => inferInstanceAs (Decidable (∀ k : Nat, k < 15 → t.day + k < Day.count ∧
      ((Moment.startOf (t.day + k) t.offset).plus ⟨bound.fromMidnight solar⟩).InCalendar))

end Periodic

namespace Retrigger

structure Clear (specs : List Periodic) (solar : SolarCalendar) (offset : Option Int) (t : Moment) :
    Prop where
  offset : t.offset = offset
  inCalendar : t.InCalendar
  spacious : ∀ spec ∈ specs, spec.Spacious solar t

instance (specs : List Periodic) (solar : SolarCalendar) (offset : Option Int) (t : Moment) :
    Decidable (Clear specs solar offset t) :=
  decidable_of_iff (t.offset = offset ∧ t.InCalendar ∧ ∀ spec ∈ specs, spec.Spacious solar t)
    ⟨fun h => ⟨h.1, h.2.1, h.2.2⟩, fun h => ⟨h.1, h.2, h.3⟩⟩

/-- A timer that has been armed, with all its times away from the limits of the calendar. -/
structure Lasting (specs : List Periodic) (solar : SolarCalendar) (offset : Option Int) (r : Retrigger) :
    Prop where
  among : ∀ spec ∈ r.specs, spec ∈ specs
  armed : ∃ t, r.armedAt = some t ∧ Clear specs solar offset t
  fired : ∀ t ∈ r.lastFired, Clear specs solar offset t
  next : ∀ t ∈ r.nextTick, t.offset = offset

variable {specs : List Periodic} {r : Retrigger} {now : Moment}

theorem Lasting.base (h : r.Lasting specs solar offset) (now : Moment) :
    ∃ base, r.base now = .ok base ∧ Clear specs solar offset base := by
  obtain ⟨armed, harmedAt, harmed⟩ := h.armed
  have hoffset (t : Moment) (ht : t ∈ r.lastFired) : t.offset = armed.offset :=
    (h.fired t ht).offset.trans harmed.offset.symm
  exact ⟨_, base_eq_laterOf harmedAt hoffset now, laterOf_of harmed h.fired⟩

theorem Lasting.tickOf {spec : Periodic} (hsolar : solar.Fixed offset)
    (hspecs : ∀ spec ∈ specs, spec.Recurs solar) (h : r.Lasting specs solar offset)
    (hnow : Clear specs solar offset now) (hspec : spec ∈ r.specs) :
    ∃ t, r.tickOf now solar spec = .ok t ∧ t.offset = offset := by
  have hmem := h.among spec hspec
  cases spec with
  | every interval =>
    obtain ⟨base, hbase, hclear⟩ := h.base now
    obtain ⟨t, ht, hoffset, -⟩ := intervalTick_eq_ok
      (hclear.offset.trans hnow.offset.symm) (hclear.spacious _ hmem) (hnow.spacious _ hmem)
    exact ⟨t, by rw [Retrigger.tickOf, hbase, Result.ok_bind, ht], hoffset.trans hnow.offset⟩
  | daily bound weekday =>
    obtain ⟨t, ht, hoffset⟩ := Bound.nextOccurrence_of_fixed (hnow.offset ▸ hsolar) (hspecs _ hmem)
      (hnow.spacious _ hmem)
    exact ⟨t, ht, hoffset.trans hnow.offset⟩

/-- The next periodic fire can be planned at every time that is away from the limits of the calendar. -/
theorem Lasting.plan (hsolar : solar.Fixed offset) (hspecs : ∀ spec ∈ specs, spec.Recurs solar)
    (h : r.Lasting specs solar offset) (hnow : Clear specs solar offset now) :
    ∃ r', r.plan now solar = (r', .ok ()) ∧ r'.Lasting specs solar offset := by
  have htick (spec : Periodic) (hspec : spec ∈ r.specs) := h.tickOf hsolar hspecs hnow hspec
  obtain ⟨next, hnext⟩ := exists_computeNext fun spec hspec => (htick spec hspec).imp
    fun _ ht => ⟨ht.1, congrArg Option.isSome (hnow.offset.trans ht.2.symm)⟩
  refine ⟨{ r with nextTick := next }, by rw [Retrigger.plan, hnext],
    ⟨h.among, h.armed, h.fired, ?_⟩⟩
  rintro t rfl
  obtain ⟨spec, hspec, ht⟩ := mem_of_computeNext hnext
  obtain ⟨u, hu, hoffset⟩ := htick spec hspec
  cases ht.symm.trans hu
  exact hoffset

theorem lasting_of_arm (hsolar : solar.Fixed offset) (hspecs : ∀ spec ∈ specs, spec.Recurs solar)
    (hmem : ∀ spec ∈ r.specs, spec ∈ specs) (hfired : r.lastFired = none)
    (hnow : Clear specs solar offset now) :
    ∃ r', r.arm now solar = (r', .ok ()) ∧ r'.Lasting specs solar offset := by
  -- The plan that was there before does not matter.
  have harmed : Lasting specs solar offset { r with armedAt := some now, nextTick := none } :=
    ⟨hmem, ⟨now, rfl, hnow⟩, by simp [hfired], by simp⟩
  obtain ⟨r', hplan, hlasting⟩ := harmed.plan hsolar hspecs hnow
  refine ⟨r', ?_, hlasting⟩
  rw [← hplan, arm, Retrigger.plan, Retrigger.plan]
  have hsame : computeNext { r with armedAt := some now, nextTick := none } now solar =
      computeNext { r with armedAt := some now } now solar := rfl
  rw [hsame]
  cases hnext : computeNext { r with armedAt := some now } now solar with
  | ok next => rfl
  | error fault => simp [Retrigger.plan, hsame, hnext] at hplan

theorem Lasting.recordFired (hsolar : solar.Fixed offset) (hspecs : ∀ spec ∈ specs, spec.Recurs solar)
    (h : r.Lasting specs solar offset) (hnow : Clear specs solar offset now) :
    ∃ r', r.recordFired now solar = (r', .ok ()) ∧ r'.Lasting specs solar offset := by
  have hfired : Lasting specs solar offset { r with lastFired := some now } :=
    ⟨h.among, h.armed, by rintro _ ⟨⟩; exact hnow, h.next⟩
  obtain ⟨_, harmedAt, -⟩ := h.armed
  obtain ⟨r', hplan, hlasting⟩ := hfired.plan hsolar hspecs hnow
  refine ⟨r', ?_, hlasting⟩
  rw [Retrigger.recordFired, ← hplan]
  exact if_pos (by simp [harmedAt])

theorem Lasting.due (h : r.Lasting specs solar offset) (hnow : now.offset = offset) :
    ∃ b, r.due now = .ok b := by
  cases hnext : r.nextTick with
  | none => exact ⟨false, due_of_nextTick_eq_none hnext now⟩
  | some t =>
    exact ⟨_, due_eq hnext (congrArg Option.isSome (hnow.trans (h.next t hnext).symm))⟩

end Retrigger
end Domotics
