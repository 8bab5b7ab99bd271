import Domotics.Proofs.Engine.Plan

/-!
The occurrences of a periodic specification. Those of an interval are its multiples from a base on;
those of a point of the day are the moments to which it resolves on its days. The search for the next
time of a specification ends at the first occurrence after the present.
-/

namespace Domotics

namespace Day

def Suits (weekday : Option Weekday) (d : Day) : Prop := ∀ w ∈ weekday, d.weekday = w

instance (weekday : Option Weekday) (d : Day) : Decidable (d.Suits weekday) := by
  unfold Suits
  infer_instance

theorem suits_iff {weekday : Option Weekday} {d : Day} :
    d.Suits weekday ↔ ¬ (weekday.isSome ∧ weekday ≠ some d.weekday) := by
  cases weekday <;> simp [Suits, eq_comm]

theorem exists_weekday (w : Weekday) (d : Nat) : ∃ e : Nat, d ≤ e ∧ e < d + 7 ∧ weekday e = w := by
  refine ⟨d + (w.val + 7 - d % 7) % 7, ?_, ?_, Fin.ext ?_⟩
  · omega
  · omega
  · have hw := w.isLt
    rw [weekday_val]
    omega

/-- The number of days in a row one of which suits a specification. -/
def cycle (weekday : Option Weekday) : Nat := if weekday.isSome then 7 else 1

theorem cycle_le (weekday : Option Weekday) : cycle weekday ≤ 7 := by
  cases weekday <;> simp [cycle]

theorem exists_suits (weekday : Option Weekday) (d : Nat) :
    ∃ e : Nat, d ≤ e ∧ Suits weekday e ∧ e < d + cycle weekday := by
  cases weekday with
  | none => exact ⟨d, Nat.le_refl _, by simp [Suits], Nat.lt_succ_self _⟩
  | some w =>
    obtain ⟨e, hle, hlt, he⟩ := exists_weekday w d
    exact ⟨e, hle, by simp [Suits, he], hlt⟩

end Day

namespace Moment

/-- The first after a time of the moments at which something occurs. -/
structure FirstAfter (now : Moment) (Occurs : Moment → Prop) (t : Moment) : Prop where
  occurs : Occurs t
  before : now.Before t
  least : ∀ u, Occurs u → now.Before u → t.NotAfter u

theorem before_of_day_lt {t u : Moment} (hoffset : t.offset = u.offset)
    (h : (t.day : Nat) < u.day) : t.Before u := by
  refine ⟨congrArg Option.isSome hoffset, ?_⟩
  replace h := Nat.succ_le_of_lt h
  simp only [day, instant, hoffset, Duration.perDay, Duration.perSecond] at h ⊢
  omega

end Moment

namespace Bound

variable {b : Bound} {after t u : Moment} {solar : SolarCalendar} {weekday : Option Weekday}
  {day found last : Nat} {offset : Option Int}

/-- The first day of a search on which a bound comes after a moment. -/
structure FirstOn (b : Bound) (after : Moment) (solar : SolarCalendar) (weekday : Option Weekday)
    (day found : Nat) (t : Moment) : Prop where
  le : day ≤ found
  suits : Day.Suits weekday found
  resolves : b.resolve found after.offset solar false = .ok t
  before : after.Before t
  earlier : ∀ d, day ≤ d → d < found → Day.Suits weekday d →
    ∀ v, b.resolve d after.offset solar false = .ok v → v.NotAfter after

theorem FirstOn.skip (hskip : Day.Suits weekday day →
      ∀ v, b.resolve day after.offset solar false = .ok v → v.NotAfter after)
    (h : b.FirstOn after solar weekday (day + 1) found t) :
    b.FirstOn after solar weekday day found t := by
  refine ⟨Nat.le_of_succ_le h.le, h.suits, h.resolves, h.before, fun d hle hlt hsuits => ?_⟩
  rcases Nat.eq_or_lt_of_le hle with rfl | hgt
  · exact hskip hsuits
  · exact h.earlier d hgt hlt hsuits

/-- A search that reaches a day on which the bound comes after the moment ends on the first such day. -/
theorem occurrenceFrom_eq_ok {n : Nat}
    (hresolves : ∀ d, day ≤ d → d ≤ last → Day.Suits weekday d →
      ∃ v, b.resolve d after.offset solar false = .ok v ∧ after.Comparable v)
    (hcount : last < Day.count) (hsuits : Day.Suits weekday last)
    (hlast : ∀ v, b.resolve last after.offset solar false = .ok v → after.Before v)
    (hfrom : day ≤ last) (hto : last < day + n) :
    ∃ found t, b.occurrenceFrom after solar weekday day n = .ok t ∧
      b.FirstOn after solar weekday day found t ∧ found ≤ last := by
  induction n generalizing day with
  | zero => omega
  | succ n ih =>
    rw [occurrenceFrom, if_neg (by omega)]
    -- What is left of the search when it goes past this day.
    have hrest (hne : day ≠ last) :=
      ih (fun d hle => hresolves d (Nat.le_of_succ_le hle))
        (Nat.lt_of_le_of_ne hfrom hne) (by omega)
    by_cases hday : Day.Suits weekday day
    · obtain ⟨v, hv, hcomparable⟩ := hresolves day (Nat.le_refl _) hfrom hday
      rw [if_neg (Day.suits_iff.mp hday), hv, Result.ok_bind]
      rcases Moment.before_or_notAfter hcomparable with hbefore | hnot
      · rw [Moment.order_eq_gt_iff.mpr hbefore, Result.ok_bind, if_pos rfl]
        refine ⟨day, v, rfl, ⟨Nat.le_refl _, hday, hv, hbefore, fun d hle hlt => ?_⟩, hfrom⟩
        exact absurd hlt (Nat.not_lt.mpr hle)
      · obtain ⟨o, horder, hne⟩ := Moment.order_ne_gt_iff.mpr hnot
        rw [horder, Result.ok_bind, if_neg hne]
        obtain ⟨found, t, heq, hfirst, hle⟩ :=
          hrest (fun h => (hlast v (h ▸ hv)).not_notAfter hnot)
        refine ⟨found, t, heq, hfirst.skip fun _ w hw => ?_, hle⟩
        cases hv.symm.trans hw
        exact hnot
    · rw [if_pos (Decidable.not_not.mp (mt Day.suits_iff.mpr hday))]
      obtain ⟨found, t, heq, hfirst, hle⟩ := hrest fun h => hday (h ▸ hsuits)
      exact ⟨found, t, heq, hfirst.skip fun h => absurd h hday, hle⟩

/-- A bound that on every calendar day resolves to a moment of that day, with a given offset. -/
def KeepsToDay (b : Bound) (solar : SolarCalendar) (offset : Option Int) : Prop :=
  ∀ d < Day.count, ∃ t, b.resolve d offset solar false = .ok t ∧ t.day = d ∧ t.offset = offset

theorem keepsToDay_of_resolve {x : Int} (hnonneg : 0 ≤ x) (hlt : x < Duration.perDay)
    (h : ∀ d, b.resolve d offset solar false = (Moment.startOf d offset).shift ⟨x⟩) :
    b.KeepsToDay solar offset := by
  intro d hd
  replace hd := Nat.succ_le_of_lt hd
  refine ⟨(Moment.startOf d offset).plus ⟨x⟩, ?_, ?_, rfl⟩
  · rw [h]
    refine Moment.shift_eq_ok_iff.mpr ⟨rfl, ?_⟩
    simp only [Moment.InCalendar, Moment.startOf, Moment.onDay, Moment.plus_ticks, Day.count,
      Duration.perDay, Duration.perSecond] at *
    omega
  · show Int.toNat _ = d
    simp only [Moment.startOf, Moment.onDay, Moment.plus_ticks, Duration.perDay, Duration.perSecond] at *
    omega

theorem keepsToDay_of_fixed {x : Int} (hnonneg : 0 ≤ x) (hlt : x < Duration.perDay)
    (h : b.fixedOffset false = .ok (some ⟨x⟩)) : b.KeepsToDay solar offset :=
  keepsToDay_of_resolve hnonneg hlt fun d => by rw [resolve, h, Result.ok_bind]

theorem keepsToDay_of_anchor {a : Anchor} {n : Nat} (hbase : b.base = .anchor a)
    (hsolar : b.fixedOffset false = .ok none) (htime : ∀ d, solar.time d a = .onDay d n offset)
    (hnonneg : 0 ≤ n + b.offset.micros) (hlt : n + b.offset.micros < Duration.perDay) :
    b.KeepsToDay solar offset :=
  keepsToDay_of_resolve hnonneg hlt fun d => by
    simp only [resolve, hsolar, Result.ok_bind, hbase, htime, Moment.shift, Moment.shift?, Moment.plus,
      Moment.startOf, Moment.onDay, Int.add_assoc, Int.zero_add, Int.natCast_zero]

def OccursAt (b : Bound) (weekday : Option Weekday) (solar : SolarCalendar) (offset : Option Int)
    (t : Moment) : Prop :=
  ∃ d : Nat, d < Day.count ∧ Day.Suits weekday d ∧ b.resolve d offset solar false = .ok t

/-- A bound that keeps to its day has a next time, the first of its occurrences. -/
theorem KeepsToDay.nextOccurrence (hb : b.KeepsToDay solar after.offset)
    (hroom : (after.day : Nat) + Day.cycle weekday < Day.count) :
    ∃ t, b.nextOccurrence after solar weekday = .ok t ∧ t.offset = after.offset ∧
      after.FirstAfter (b.OccursAt weekday solar after.offset) t := by
  obtain ⟨last, hle, hsuits, hlt⟩ := Day.exists_suits weekday (after.day + 1)
  have hweek := Day.cycle_le weekday
  replace hroom := Nat.succ_le_of_lt hroom
  have hresolves : ∀ d : Nat, after.day ≤ d → d ≤ last → Day.Suits weekday d →
      ∃ v, b.resolve d after.offset solar false = .ok v ∧ after.Comparable v := fun d _ hd _ => by
    obtain ⟨v, hv, -, hoffset⟩ := hb d (by omega)
    exact ⟨v, hv, congrArg Option.isSome hoffset.symm⟩
  have hlast : ∀ v, b.resolve last after.offset solar false = .ok v → after.Before v := fun v hv => by
    obtain ⟨v', hv', hday, hoffset⟩ := hb last (by omega)
    cases hv.symm.trans hv'
    exact Moment.before_of_day_lt hoffset.symm (hday ▸ hle)
  have hto : last < after.day + 15 := by omega
  obtain ⟨found, t, heq, hfirst, hfound⟩ :=
    occurrenceFrom_eq_ok hresolves (by omega) hsuits hlast (by omega) hto
  obtain ⟨t', ht', hday, hoffset⟩ := hb found (by omega)
  cases hfirst.resolves.symm.trans ht'
  refine ⟨t, heq, hoffset, ⟨found, by omega, hfirst.suits, hfirst.resolves⟩, hfirst.before, ?_⟩
  rintro u ⟨d, hd, hdsuits, hu⟩ hbefore
  obtain ⟨u', hu', hudays, huoffset⟩ := hb d hd
  cases hu.symm.trans hu'
  -- An occurrence on an earlier day than that of the search is not after the present.
  have hnotEarlier : after.day ≤ d := Nat.le_of_not_lt fun hlt =>
    (Moment.before_of_day_lt huoffset (hudays ▸ hlt)).not_notAfter hbefore.notAfter
  rcases Nat.lt_trichotomy d found with hlt | rfl | hgt
  · exact absurd (hfirst.earlier d hnotEarlier hlt hdsuits u hu) hbefore.not_notAfter
  · cases hu.symm.trans ht'
    exact .refl t
  · exact (Moment.before_of_day_lt (hoffset.trans huoffset.symm) (hday ▸ hudays ▸ hgt)).notAfter

end Bound

namespace Retrigger

variable {r : Retrigger} {solar : SolarCalendar} {specs : List Periodic} {base now t u : Moment}
  {interval : Interval}

def Multiple (base : Moment) (interval : Interval) (t : Moment) : Prop :=
  ∃ k : Nat, 0 < k ∧ t = base.plus ⟨k * interval.micros⟩

/-- The loop that moves a time on by an interval until it lies after the present. -/
inductive Climbs (now : Moment) (interval : Interval) : Moment → Moment → Prop where
  | done {t : Moment} : now.Before t → Climbs now interval t t
  | step {t u v : Moment} : t.NotAfter now → t.shift interval = .ok u → Climbs now interval u v →
      Climbs now interval t v

theorem multiple_first (base : Moment) (interval : Interval) :
    Multiple base interval (base.plus interval) := ⟨1, Nat.one_pos, by simp⟩

theorem Multiple.first_notAfter (h : Multiple base interval t) :
    (base.plus interval).NotAfter t := by
  obtain ⟨k, hk, rfl⟩ := h
  refine ⟨rfl, ?_⟩
  have hle : 1 * interval.micros ≤ k * interval.micros :=
    Int.mul_le_mul_of_nonneg_right (by omega) (Int.le_of_lt interval.positive)
  simp only [Moment.instant_plus]
  omega

/-- An interval has a next time, the first of its multiples after the present. -/
theorem intervalTick_eq_ok (hoffset : base.offset = now.offset)
    (hroom : (base.plus interval).InCalendar) (hnow : (now.plus interval).InCalendar) :
    ∃ t, intervalTick base now interval = .ok t ∧ t.offset = now.offset ∧
      now.FirstAfter (Multiple base interval) t := by
  have hpositive := interval.positive
  have hfirst : base.shift interval = .ok (base.plus interval) :=
    Moment.shift_eq_ok_iff.mpr ⟨rfl, hroom⟩
  have hcomparable : now.Comparable (base.plus interval) := congrArg Option.isSome hoffset.symm
  rcases Moment.before_or_notAfter hcomparable with hbefore | hnot
  · refine ⟨base.plus interval, ?_, hoffset, multiple_first .., hbefore,
      fun u hu _ => hu.first_notAfter⟩
    rw [intervalTick, hfirst, Result.ok_bind, Moment.order_eq_gt_iff.mpr hbefore, Result.ok_bind,
      if_pos rfl]
    rfl
  · obtain ⟨o, horder, hne⟩ := Moment.order_ne_gt_iff.mpr hnot
    have hpassed := hnot.2
    rw [Moment.instant_plus] at hpassed
    -- The whole intervals between the base and the present.
    obtain ⟨periods, hperiods⟩ : ∃ n, n = (now.instant - base.instant) / interval.micros := ⟨_, rfl⟩
    have hnonneg : 0 ≤ periods := hperiods ▸ Int.ediv_nonneg (by omega) (Int.le_of_lt hpositive)
    have hle : periods * interval.micros ≤ now.instant - base.instant :=
      hperiods ▸ Int.ediv_mul_le _ (Int.ne_of_gt hpositive)
    have hzero : 0 ≤ periods * interval.micros := Int.mul_nonneg hnonneg (Int.le_of_lt hpositive)
    have hnext : (periods + 1) * interval.micros = periods * interval.micros + interval.micros := by
      rw [Int.add_mul, Int.one_mul]
    have hcalendar : (base.plus ⟨(periods + 1) * interval.micros⟩).InCalendar := by
      simp only [Moment.InCalendar, Moment.instant, Moment.plus_ticks, hoffset, hnext] at *
      omega
    have heq : intervalTick base now interval =
        .ok (base.plus ⟨(periods + 1) * interval.micros⟩) := by
      rw [intervalTick, hfirst, Result.ok_bind, horder, Result.ok_bind, if_neg hne, ← hperiods]
      exact Moment.shift_eq_ok_iff.mpr ⟨rfl, hcalendar⟩
    refine ⟨_, heq, hoffset, ⟨(periods + 1).toNat, by omega, ?_⟩, before_intervalTick heq, ?_⟩
    · rw [Int.toNat_of_nonneg (by omega)]
    · rintro u ⟨k, -, rfl⟩ ⟨-, hlater⟩
      rw [Moment.instant_plus] at hlater
      have hk : periods < k := hperiods ▸ Int.ediv_lt_of_lt_mul hpositive (by dsimp only at hlater; omega)
      have hmul : (periods + 1) * interval.micros ≤ k * interval.micros :=
        Int.mul_le_mul_of_nonneg_right hk (Int.le_of_lt hpositive)
      refine ⟨rfl, ?_⟩
      simp only [Moment.instant_plus]
      omega

theorem inCalendar_of_intervalTick (h : intervalTick base now interval = .ok t) : t.InCalendar := by
  obtain ⟨first, hfirst, h⟩ := Result.bind_eq_ok.mp h
  obtain ⟨o, -, h⟩ := Result.bind_eq_ok.mp h
  split at h
  · cases h
    obtain ⟨rfl, hcalendar⟩ := Moment.shift_eq_ok_iff.mp hfirst
    exact hcalendar
  · obtain ⟨rfl, hcalendar⟩ := Moment.shift_eq_ok_iff.mp h
    exact hcalendar

/-- The loop goes through the multiples, one after another, and ends at the first that lies after the
present. -/
theorem climbs_of_firstAfter (hbase : base.InCalendar) (ht : t.InCalendar)
    (h : now.FirstAfter (Multiple base interval) t) :
    Climbs now interval (base.plus interval) t := by
  have hpositive := interval.positive
  obtain ⟨⟨k, hk, rfl⟩, hbefore, hleast⟩ := h
  -- From the last multiple back to the first.
  suffices hback : ∀ n < k,
      Climbs now interval (base.plus ⟨(k - n : Nat) * interval.micros⟩)
        (base.plus ⟨k * interval.micros⟩) by
    simpa [Nat.sub_sub_self hk] using hback (k - 1) (by omega)
  intro n hn
  induction n with
  | zero => exact .done hbefore
  | succ n ih =>
    have hsplit : ((k - n : Nat) : Int) * interval.micros =
        (k - (n + 1) : Nat) * interval.micros + interval.micros := by
      rw [show ((k - n : Nat) : Int) = (k - (n + 1) : Nat) + 1 by omega, Int.add_mul, Int.one_mul]
    have hle : ((k - n : Nat) : Int) * interval.micros ≤ k * interval.micros :=
      Int.mul_le_mul_of_nonneg_right (by omega) (Int.le_of_lt hpositive)
    have hzero : 0 ≤ ((k - (n + 1) : Nat) : Int) * interval.micros :=
      Int.mul_nonneg (by omega) (Int.le_of_lt hpositive)
    refine .step ?_ (Moment.shift_eq_ok_iff.mpr ⟨?_, ?_⟩) (ih (by omega))
    · -- A multiple before the first that lies after the present does not lie after it.
      rcases Moment.before_or_notAfter (t := now) (u := base.plus ⟨(k - (n + 1) : Nat) * interval.micros⟩)
        hbefore.1 with hlater | hnot
      · have hleast := (hleast _ ⟨k - (n + 1), by omega, rfl⟩ hlater).2
        simp only [Moment.instant_plus] at hleast
        omega
      · exact hnot
    · simp only [Moment.plus, Moment.mk.injEq, and_true]
      omega
    · simp only [Moment.InCalendar, Moment.plus_ticks] at *
      omega

theorem exists_mapM_tickOf (h : ∀ spec ∈ specs, ∃ t, r.tickOf now solar spec = .ok t) :
    ∃ ticks, specs.mapM (r.tickOf now solar) = .ok ticks := by
  induction specs with
  | nil => exact ⟨[], rfl⟩
  | cons spec rest ih =>
    obtain ⟨⟨t, ht⟩, hrest⟩ := List.forall_mem_cons.mp h
    obtain ⟨ticks, hticks⟩ := ih hrest
    exact ⟨t :: ticks, by rw [List.mapM_cons, ht, Result.ok_bind, hticks, Result.ok_bind]; rfl⟩

theorem mem_of_tickOf {ticks : List Moment} (hticks : specs.mapM (r.tickOf now solar) = .ok ticks)
    {spec : Periodic} (hspec : spec ∈ specs) (ht : r.tickOf now solar spec = .ok t) : t ∈ ticks := by
  induction specs generalizing ticks with
  | nil => cases hspec
  | cons first rest ih =>
    rw [List.mapM_cons] at hticks
    obtain ⟨u, hu, hticks⟩ := Result.bind_eq_ok.mp hticks
    obtain ⟨others, hothers, hticks⟩ := Result.bind_eq_ok.mp hticks
    cases hticks
    rcases List.mem_cons.mp hspec with rfl | hspec
    · cases hu.symm.trans ht
      exact List.mem_cons_self ..
    · exact List.mem_cons_of_mem _ (ih hothers hspec)

theorem exists_computeNext
    (h : ∀ spec ∈ r.specs, ∃ t, r.tickOf now solar spec = .ok t ∧ now.Comparable t) :
    ∃ next, r.computeNext now solar = .ok next := by
  obtain ⟨ticks, hticks⟩ := exists_mapM_tickOf fun spec hspec => (h spec hspec).imp fun _ h => h.1
  -- The times that have been found have an order.
  have hcomparable : ∀ t ∈ ticks, now.Comparable t := fun t ht => by
    obtain ⟨spec, hspec, heq⟩ := Result.mem_of_mapM hticks t ht
    obtain ⟨u, hu, hcomparable⟩ := h spec hspec
    cases heq.symm.trans hu
    exact hcomparable
  obtain ⟨next, hnext⟩ := exists_earliest hcomparable
  exact ⟨next, by rw [computeNext, hticks, Result.ok_bind, hnext]⟩

theorem mem_of_computeNext (h : r.computeNext now solar = .ok (some t)) :
    ∃ spec ∈ r.specs, r.tickOf now solar spec = .ok t := by
  obtain ⟨ticks, hticks, h⟩ := Result.bind_eq_ok.mp h
  exact Result.mem_of_mapM hticks t (mem_of_earliest h)

/-- The next periodic fire does not come after the next time of any specification. -/
theorem notAfter_of_computeNext {next : Option Moment} (h : r.computeNext now solar = .ok next)
    {spec : Periodic} (hspec : spec ∈ r.specs) (hu : r.tickOf now solar spec = .ok u) :
    ∃ t, next = some t ∧ t.NotAfter u := by
  obtain ⟨ticks, hticks, h⟩ := Result.bind_eq_ok.mp h
  exact notAfter_of_earliest h u (mem_of_tickOf hticks hspec hu)

theorem due_eq (h : r.nextTick = some t) (hcomparable : now.Comparable t) :
    r.due now = .ok (decide (t.instant ≤ now.instant)) := by
  have horder : now.order t = .ok (compare now.instant t.instant) :=
    Moment.order_eq_ok_iff.mpr ⟨hcomparable, rfl⟩
  simp only [due, h, horder, Result.ok_bind, Result.pure_eq_ok, ne_eq, Int.compare_eq_lt, Int.not_lt]

end Retrigger
end Domotics
