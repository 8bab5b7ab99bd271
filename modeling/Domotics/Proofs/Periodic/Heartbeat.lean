import Domotics.Proofs.Periodic.Occurrence
import Domotics.Proofs.Rehearsal.Delay

/-!
The beats of an interval. A timer whose only specification is an interval plans its fires on the beats that
follow its arming, one after the other: a fire moves the base of the interval to another beat, and a beat
that is passed over leaves it where it is. With a cooldown it fires on the first beat and then on every
so-many-th.
-/

namespace Domotics

namespace Duration

def intervals (c : Duration) (e : Interval) : Int := -(-c.micros / e.micros)

/-- The number of beats from one fire to the next, which is at least one. -/
def stride (c : Duration) (e : Interval) : Nat := (max 1 (c.intervals e)).toNat

variable {c : Duration} {e : Interval}

theorem one_le_stride (c : Duration) (e : Interval) : 1 ≤ c.stride e := by
  rw [stride]
  omega

theorem stride_le_iff {k : Nat} (hk : 1 ≤ k) :
    c.stride e ≤ k ↔ c.micros ≤ k * e.micros := by
  have hcovers : -(k : Int) ≤ -c.micros / e.micros ↔ -(k : Int) * e.micros ≤ -c.micros :=
    Int.le_ediv_iff_mul_le e.positive
  rw [Int.neg_mul] at hcovers
  rw [stride, intervals]
  omega

end Duration

namespace Moment

def beat (t : Moment) (e : Interval) (n : Nat) : Moment := t.plus ⟨n * e.micros⟩

variable {t : Moment} {e : Interval} {m n : Nat}

theorem beat_zero (t : Moment) (e : Interval) : t.beat e 0 = t := by
  simp [beat, plus]

theorem beat_plus (k : Nat) : (t.beat e n).plus ⟨k * e.micros⟩ = t.beat e (n + k) := by
  rw [beat, beat, plus_plus, Duration.plus, ← Int.add_mul, Int.natCast_add]

theorem beat_succ : (t.beat e n).plus e = t.beat e (n + 1) := by
  simpa using beat_plus (t := t) (e := e) (n := n) 1

theorem instant_beat : (t.beat e n).instant = t.instant + n * e.micros := instant_plus ..

theorem comparable_beat : (t.beat e m).Comparable (t.beat e n) := rfl

theorem micros_le (e : Interval) (h : m ≤ n) : (m : Int) * e.micros ≤ n * e.micros :=
  Int.mul_le_mul_of_nonneg_right (by omega) (Int.le_of_lt e.positive)

theorem before_beat_iff : (t.beat e m).Before (t.beat e n) ↔ m < n := by
  have hlt : (m : Int) * e.micros < n * e.micros ↔ (m : Int) < n := Int.mul_lt_mul_right e.positive
  simp only [Before, comparable_beat, true_and, instant_beat]
  omega

theorem notAfter_beat (h : m ≤ n) : (t.beat e m).NotAfter (t.beat e n) := by
  refine ⟨comparable_beat, ?_⟩
  have hle := micros_le e h
  simp only [instant_beat]
  omega

theorem inCalendar_beat (ht : t.InCalendar) (hn : (t.beat e n).InCalendar)
    (h : m ≤ n) : (t.beat e m).InCalendar := by
  have hzero : 0 ≤ (m : Int) * e.micros := Int.mul_nonneg (by omega) (Int.le_of_lt e.positive)
  have hle := micros_le e h
  refine inCalendar_of_between ht hn ?_ ?_
  all_goals simp only [beat, plus_ticks]
  all_goals omega

end Moment

namespace Retrigger

variable {r : Retrigger} {start : Moment} {e : Interval} {c : Duration} {n m fires : Nat}

/-- The beat of the last of some fires: the first fire is on the first beat. -/
def lastBeat (stride : Nat) : Nat → Option Nat
  | 0 => none
  | fires + 1 => some (1 + fires * stride)

/-- The timer of an interval and a cooldown when so many beats have passed since it was armed, on some of
which it fired. -/
structure Counting (r : Retrigger) (start : Moment) (e : Interval) (c : Duration) (n fires : Nat) : Prop where
  cooldown : r.cooldown = c
  specs : r.specs = [.every e]
  armedAt : r.armedAt = some start
  lastFired : r.lastFired = (lastBeat (c.stride e) fires).map (start.beat e)
  enough : n ≤ fires * c.stride e
  few : fires * c.stride e < n + c.stride e

structure OnBeat (r : Retrigger) (start : Moment) (e : Interval) (c : Duration) (n fires : Nat) : Prop
    extends Counting r start e c n fires where
  nextTick : r.nextTick = some (start.beat e (n + 1))

theorem computeNext_beat (hspecs : r.specs = [.every e])
    (hbase : r.base (start.beat e n) = .ok (start.beat e m)) (hle : m ≤ n) (hstart : start.InCalendar)
    (hnext : (start.beat e (n + 1)).InCalendar) (solar : SolarCalendar) :
    r.computeNext (start.beat e n) solar = .ok (some (start.beat e (n + 1))) := by
  have hroom : ((start.beat e m).plus e).InCalendar := by
    rw [Moment.beat_succ]
    exact Moment.inCalendar_beat hstart hnext (by omega)
  obtain ⟨t, htick, -, ⟨k, -, hk⟩, hbefore, hleast⟩ :=
    intervalTick_eq_ok (show (start.beat e m).offset = (start.beat e n).offset from rfl) hroom
      (Moment.beat_succ ▸ hnext)
  obtain rfl : t = start.beat e (m + k) := by rw [hk, Moment.beat_plus]
  -- The first multiple after this beat comes neither before the next beat nor after it.
  have hfirst := hleast (start.beat e (n + 1)) ⟨n + 1 - m, by omega, by
    rw [Moment.beat_plus, Nat.add_sub_cancel' (by omega)]⟩ (Moment.before_beat_iff.mpr (by omega))
  have hlow := Moment.before_beat_iff.mp hbefore
  have hhigh : ¬ n + 1 < m + k := fun hlt =>
    (Moment.before_beat_iff.mpr hlt).not_notAfter hfirst
  rw [show m + k = n + 1 by omega] at htick
  have hticks : r.specs.mapM (r.tickOf (start.beat e n) solar) = .ok [start.beat e (n + 1)] := by
    simp [hspecs, tickOf, hbase, htick]
  rw [computeNext, hticks]
  rfl

theorem lastBeat_pos {stride : Nat} : ∀ k ∈ lastBeat stride fires, 0 < k := by
  intro k hk
  cases fires with
  | zero => cases hk
  | succ fires =>
    cases hk
    omega

namespace Counting

theorem lastBeat_le (h : r.Counting start e c n fires) : ∀ k ∈ lastBeat (c.stride e) fires, k ≤ n := by
  intro k hk
  cases fires with
  | zero => cases hk
  | succ fires =>
    cases hk
    have hfew := h.few
    rw [Nat.add_mul] at hfew
    omega

/-- The intervals count from the last fire, or from the arming before the first. -/
theorem base_eq (h : r.Counting start e c n fires) (now : Moment) :
    r.base now = .ok (start.beat e ((lastBeat (c.stride e) fires).getD 0)) := by
  rw [base, h.armedAt, h.lastFired]
  cases hlast : lastBeat (c.stride e) fires with
  | none => simp [Moment.beat_zero]
  | some k =>
    have hafter : start.Before (start.beat e k) := by
      have hbefore := (Moment.before_beat_iff (t := start) (e := e)).mpr (lastBeat_pos k hlast)
      rwa [Moment.beat_zero] at hbefore
    simp [Moment.order_eq_gt_iff.mpr hafter]

theorem plan (hstart : start.InCalendar) (hnext : (start.beat e (n + 1)).InCalendar)
    (h : r.Counting start e c n fires) (solar : SolarCalendar) :
    ∃ r', r.plan (start.beat e n) solar = (r', .ok ()) ∧ r'.OnBeat start e c n fires := by
  have hle : (lastBeat (c.stride e) fires).getD 0 ≤ n := by
    cases hlast : lastBeat (c.stride e) fires with
    | none => exact Nat.zero_le n
    | some k => exact h.lastBeat_le k hlast
  have hcompute := computeNext_beat h.specs (h.base_eq _) hle hstart hnext solar
  refine ⟨{ r with nextTick := some (start.beat e (n + 1)) }, by simp [Retrigger.plan, hcompute], ?_⟩
  exact { h with nextTick := rfl }

theorem mayFire_eq (h : r.Counting start e c n fires) (m : Nat) :
    r.mayFire (start.beat e m) = .ok (decide
      (∀ k ∈ lastBeat (c.stride e) fires, c.micros ≤ ((m : Int) - k) * e.micros)) := by
  rw [mayFire, h.lastFired, h.cooldown]
  cases lastBeat (c.stride e) fires with
  | none => simp
  | some k =>
    have hsince : (start.beat e m).since (start.beat e k) = .ok ⟨((m : Int) - k) * e.micros⟩ := by
      have helapsed : start.instant + m * e.micros - (start.instant + k * e.micros) =
          ((m : Int) - k) * e.micros := by
        rw [Int.sub_mul]
        omega
      simp [Moment.since, Moment.since?, Moment.comparable_beat, Moment.instant_beat, helapsed]
    simp [hsince, Duration.le_def]

theorem remaining (hc : .zero ≤ c ∧ c.Representable)
    (h : r.Counting start e c n fires) (hle : n ≤ m) (hstart : start.InCalendar)
    (hm : (start.beat e m).InCalendar) : ∃ rest, r.remaining (start.beat e m) = .ok rest := by
  rw [Retrigger.remaining, h.lastFired, h.cooldown]
  cases hlast : lastBeat (c.stride e) fires with
  | none => exact ⟨_, rfl⟩
  | some k =>
    have hk := Nat.le_trans (h.lastBeat_le k hlast) hle
    have hcalendar := Moment.inCalendar_beat hstart hm hk
    have hmicros := Moment.micros_le e hk
    obtain ⟨elapsed, helapsed⟩ : ∃ d : Duration,
      d = ⟨(start.beat e m).instant - (start.beat e k).instant⟩ := ⟨_, rfl⟩
    have hsince : (start.beat e m).since (start.beat e k) = .ok elapsed := by
      simp [Moment.since, Moment.since?, Moment.comparable_beat, helapsed]
    have hcheck : (c.minus elapsed).check = .ok (c.minus elapsed) := by
      rw [Duration.check_eq_ok_iff]
      refine ⟨rfl, ?_⟩
      obtain ⟨hzero, hrepresentable⟩ := hc
      have hmicros : elapsed.micros = m * e.micros - k * e.micros := by
        simp only [helapsed, Moment.instant_beat]
        omega
      simp only [Moment.InCalendar, Moment.beat, Moment.plus_ticks, Duration.le_def, Duration.zero,
        Duration.Representable, Duration.wholeDays, Duration.minus_micros, Day.count, Duration.perDay,
        Duration.perSecond, Duration.maxDays] at *
      omega
    simp [hsince, hcheck]

end Counting

namespace OnBeat

theorem due (h : r.OnBeat start e c n fires) : r.due (start.beat e (n + 1)) = .ok true := by
  rw [due_eq h.nextTick Moment.comparable_beat]
  simp

theorem mayFire (h : r.OnBeat start e c n fires) :
    r.mayFire (start.beat e (n + 1)) = .ok (decide (n = fires * c.stride e)) := by
  rw [h.mayFire_eq, Except.ok.injEq, decide_eq_decide]
  have henough := h.enough
  have hfew := h.few
  cases fires with
  | zero => simp_all [lastBeat]
  | succ fires =>
    have hle := h.lastBeat_le _ rfl
    have hiff := Duration.stride_le_iff (c := c) (e := e) (k := n + 1 - (1 + fires * c.stride e)) (by omega)
    have hcast : (((n + 1 - (1 + fires * c.stride e) : Nat) : Int)) =
        ((n + 1 : Nat) : Int) - (1 + fires * c.stride e : Nat) := by omega
    rw [hcast] at hiff
    rw [Nat.add_mul, Nat.one_mul] at henough hfew ⊢
    simp only [lastBeat, Option.mem_def, Option.some.injEq, forall_eq']
    rw [← hiff]
    omega

theorem recordFired (hstart : start.InCalendar)
    (hnext : (start.beat e (n + 2)).InCalendar) (h : r.OnBeat start e c n fires)
    (hn : n = fires * c.stride e) (solar : SolarCalendar) :
    ∃ r', r.recordFired (start.beat e (n + 1)) solar = (r', .ok ()) ∧
      r'.OnBeat start e c (n + 1) (fires + 1) := by
  have hstride := Duration.one_le_stride c e
  have hfired : Counting { r with lastFired := some (start.beat e (n + 1)) } start e c (n + 1)
      (fires + 1) :=
    { h with
      lastFired := by simp [lastBeat, hn, Nat.add_comm]
      enough := by rw [Nat.add_mul]; omega
      few := by rw [Nat.add_mul]; omega }
  rw [Retrigger.recordFired, if_pos (by simp [h.armedAt])]
  exact hfired.plan hstart hnext solar

theorem consume (hstart : start.InCalendar)
    (hnext : (start.beat e (n + 2)).InCalendar) (h : r.OnBeat start e c n fires)
    (hn : n ≠ fires * c.stride e) (solar : SolarCalendar) :
    ∃ r', r.consume (start.beat e (n + 1)) solar = (r', .ok ()) ∧
      r'.OnBeat start e c (n + 1) fires := by
  have hpassed : r.Counting start e c (n + 1) fires :=
    { h with
      enough := by have := h.enough; omega
      few := by have := h.few; omega }
  exact hpassed.plan hstart hnext solar

end OnBeat

theorem onBeat_of_arm (hstart : start.InCalendar)
    (hnext : (start.beat e 1).InCalendar) (hspecs : r.specs = [.every e]) (hc : r.cooldown = c)
    (hfresh : r.lastFired = none) (solar : SolarCalendar) :
    ∃ r', r.arm start solar = (r', .ok ()) ∧ r'.OnBeat start e c 0 0 := by
  have hstride := Duration.one_le_stride c e
  have hcounting : Counting { r with armedAt := some start } start e c 0 0 :=
    ⟨hc, hspecs, rfl, by simp [lastBeat, hfresh], by simp, by omega⟩
  have hplan := hcounting.plan hstart hnext solar
  rwa [Moment.beat_zero] at hplan

/-- The number of fires on the beats of some time: none before the first beat, one on it, and one more for
every stride after it. -/
theorem Counting.fires_eq {passed : Int} (h : r.Counting start e c n fires)
    (hlow : n * e.micros ≤ passed) (hhigh : passed < (n + 1) * e.micros) :
    (fires : Int) = if passed < e.micros then 0
      else 1 + (passed - e.micros) / (e.micros * max 1 (c.intervals e)) := by
  have henough := h.enough
  have hfew := h.few
  have hstride : max 1 (c.intervals e) = (c.stride e : Int) := by
    rw [Duration.stride]
    omega
  cases fires with
  | zero =>
    obtain rfl : n = 0 := by omega
    simp only [Int.natCast_zero, Int.zero_add, Int.one_mul] at hhigh
    rw [if_pos hhigh]
    rfl
  | succ fires =>
    rw [Nat.add_mul, Nat.one_mul] at henough hfew
    have hfirst := Moment.micros_le e (show 1 ≤ n by omega)
    have hlast := Moment.micros_le e (show fires * c.stride e + 1 ≤ n by omega)
    have hnext := Moment.micros_le e (show n ≤ (fires + 1) * c.stride e by rw [Nat.add_mul]; omega)
    rw [if_neg (by omega), hstride]
    -- The fires after the first are the whole strides after the first beat.
    have hstrides (k : Nat) :
        (k : Int) * (e.micros * c.stride e) = (k * c.stride e : Nat) * e.micros := by
      rw [Int.natCast_mul, Int.mul_assoc, Int.mul_comm e.micros]
    have hwhole : (passed - e.micros) / (e.micros * c.stride e) = fires := by
      have hpositive : 0 < e.micros * c.stride e :=
        Int.mul_pos e.positive (by have := Duration.one_le_stride c e; omega)
      apply Int.le_antisymm
      · apply Int.lt_add_one_iff.mp
        apply Int.ediv_lt_of_lt_mul hpositive
        rw [← Int.natCast_add_one, hstrides]
        rw [Int.add_mul] at hhigh
        omega
      · apply Int.le_ediv_of_mul_le hpositive
        rw [hstrides]
        rw [Int.natCast_add, Int.add_mul] at hlast
        omega
    rw [hwhole, Int.natCast_add, Int.add_comm]
    rfl

end Retrigger
end Domotics
