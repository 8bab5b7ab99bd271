import Domotics.Proofs.Rehearsal.Waiting

/-!
Delays add up. A delay that is cut in two, wherever the cut falls among the wake-up times, delivers the
same of them and leaves the rehearsal as it would be without the cut.
-/

namespace Domotics

namespace Duration

theorem representable_of_le {d e : Duration} (hd : .zero ≤ d) (hle : d ≤ e) (he : e.Representable) :
    d.Representable := by
  simp only [le_def, zero, Representable, wholeDays, perDay, perSecond, maxDays] at *
  omega

theorem ofSeconds_add (a b : Int) : (ofSeconds a).plus (ofSeconds b) = ofSeconds (a + b) := by
  simp [plus, ofSeconds, Int.add_mul]

theorem zero_le_ofSeconds (n : Nat) : .zero ≤ ofSeconds n := by
  simp only [le_def, zero, ofSeconds, perSecond]
  omega

end Duration

namespace Moment

theorem representable_of_inCalendar {t : Moment} {d : Duration} (ht : t.InCalendar)
    (hd : .zero ≤ d) (h : (t.plus d).InCalendar) : d.Representable := by
  simp only [InCalendar, plus_ticks, Duration.le_def, Duration.zero, Duration.Representable,
    Duration.wholeDays, Day.count, Duration.perDay, Duration.perSecond, Duration.maxDays] at *
  omega

end Moment

namespace Rehearsal

variable {r mid r' : Rehearsal} {cut finish : Moment} {ticks first later : List Moment}

/-- A wait that goes on where another one ended is one wait. -/
theorem Waits.join (hcut : cut.NotAfter finish) (h₁ : Waits cut r first mid)
    (h₂ : Waits finish mid later r') : Waits finish r (first ++ later) r' := by
  induction h₁ with
  | arrive hwakeup hlater hclock =>
    -- The clock alone was moved, and the next arrival or wake-up moves it again.
    cases h₂ with
    | arrive hwakeup' hlater' hclock' => exact .arrive hwakeup' hlater' (hclock.trans hcut)
    | wake hwakeup' hfinish hclock' htick hnext hforward rest =>
      exact .wake hwakeup' hfinish (hclock.trans hclock') htick hnext hforward rest
  | wake hwakeup hfinish hclock htick hnext hforward _ ih =>
    exact .wake hwakeup (hfinish.trans hcut) hclock htick hnext hforward (ih h₂)

/-- A wait can be cut at any time between its beginning and its end. -/
theorem Waits.split (hcut : cut.NotAfter finish) (h : Waits finish r ticks r')
    (hstart : r.clock.now.NotAfter cut) : ∃ first later mid, ticks = first ++ later ∧
      Waits cut r first mid ∧ Waits finish mid later r' := by
  induction h with
  | @arrive r wakeup hwakeup hlater hclock =>
    refine ⟨[], [], r.atTime cut, rfl, .arrive hwakeup (fun t ht => ?_) hstart, ?_⟩
    · exact hcut.trans_before (hlater t ht)
    · exact .arrive hwakeup hlater hcut
  | @wake r r' t ticks fuel service report next hwakeup hfinish hclock htick hnext hforward rest ih =>
    rcases Moment.before_or_notAfter (hcut.1.trans hfinish.1.symm) with hbefore | hle
    · -- The wake-up comes after the cut, so that nothing comes before it.
      refine ⟨[], t :: ticks, r.atTime cut, rfl, .arrive hwakeup (fun u hu => ?_) hstart, ?_⟩
      · cases hu
        exact hbefore
      · exact .wake hwakeup hfinish hbefore.notAfter htick hnext hforward rest
    · obtain ⟨first, later, mid, rfl, hfirst, hlater⟩ := ih hle
      exact ⟨t :: first, later, mid, rfl,
        .wake hwakeup hle hclock htick hnext hforward hfirst, hlater⟩

theorem delayOf_nat (n : Nat) : delayOf (.int n) = (Duration.ofSeconds n).check := by
  have hnot : (Number.int n).isNegative = false := by
    rw [Number.isNegative, Number.compare?_int, beq_eq_false_iff_ne, ne_eq, Option.some.injEq,
      Int.compare_eq_lt]
    omega
  simp [delayOf, Document.toNumber?, hnot, Duration.ofNumber]

theorem delaysTo_nat {n : Nat} : r.DelaysTo (.int n) r' ↔
    (Duration.ofSeconds n).Representable ∧ (r.clock.now.plus (.ofSeconds n)).InCalendar ∧
      ∃ ticks, Waits (r.clock.now.plus (.ofSeconds n)) r ticks r' := by
  constructor
  · rintro ⟨enough, h⟩
    obtain ⟨d, finish, ticks, hd, hfinish, hwaits⟩ := delay_eq_returned (h enough (Nat.le_refl _))
    rw [delayOf_nat, Duration.check_eq_ok_iff] at hd
    obtain ⟨rfl, hrepresentable⟩ := hd
    obtain ⟨rfl, hcalendar⟩ := Moment.shift_eq_ok_iff.mp hfinish
    exact ⟨hrepresentable, hcalendar, ticks, hwaits⟩
  · rintro ⟨hrepresentable, hcalendar, ticks, hwaits⟩
    refine delaysTo_of_waits ?_ (Moment.shift_eq_ok_iff.mpr ⟨rfl, hcalendar⟩) hwaits
    rw [delayOf_nat, Duration.check_eq_ok_iff]
    exact ⟨rfl, hrepresentable⟩

/-- A delay of `a` seconds and one of `b` seconds after it end normally if one of `a + b` seconds does,
and then they lead to the same rehearsal: the same clock, the same world with all that it has recorded
and reported, and the same service. -/
theorem delay_add (hclock : r.clock.now.InCalendar) (a b : Nat) (r' : Rehearsal) :
    r.DelaysTo (.int ((a + b : Nat) : Int)) r' ↔
      ∃ mid, r.DelaysTo (.int a) mid ∧ mid.DelaysTo (.int b) r' := by
  have hsum : (r.clock.now.plus (.ofSeconds a)).plus (.ofSeconds b) =
      r.clock.now.plus (.ofSeconds ((a + b : Nat) : Int)) := by
    rw [Moment.plus_plus, Duration.ofSeconds_add, Int.natCast_add]
  have hcut : (r.clock.now.plus (.ofSeconds a)).NotAfter
      (r.clock.now.plus (.ofSeconds ((a + b : Nat) : Int))) := by
    rw [← hsum]
    exact Moment.notAfter_plus (Duration.zero_le_ofSeconds b)
  have hcalendar_cut (h : (r.clock.now.plus (.ofSeconds ((a + b : Nat) : Int))).InCalendar) :
      (r.clock.now.plus (.ofSeconds a)).InCalendar := by
    refine Moment.inCalendar_of_between hclock h ?_ ?_
    all_goals simp only [Moment.plus_ticks, Duration.ofSeconds, Duration.perSecond]
    all_goals omega
  simp only [delaysTo_nat]
  constructor
  · rintro ⟨hrepresentable, hcalendar, ticks, hwaits⟩
    obtain ⟨first, later, mid, rfl, hfirst, hlater⟩ :=
      hwaits.split hcut (Moment.notAfter_plus (Duration.zero_le_ofSeconds a))
    have hparts (n : Nat) (hn : n ≤ a + b) : (Duration.ofSeconds n).Representable := by
      refine Duration.representable_of_le (Duration.zero_le_ofSeconds n) ?_ hrepresentable
      simp only [Duration.le_def, Duration.ofSeconds, Duration.perSecond]
      omega
    refine ⟨mid, ⟨hparts a (by omega), hcalendar_cut hcalendar, first, hfirst⟩, ?_⟩
    rw [hfirst.clock, hsum]
    exact ⟨hparts b (by omega), hcalendar, later, hlater⟩
  · rintro ⟨mid, ⟨_, _, first, hfirst⟩, _, hcalendar, later, hlater⟩
    rw [hfirst.clock, hsum] at hcalendar hlater
    refine ⟨?_, hcalendar, first ++ later, hfirst.join hcut hlater⟩
    exact Moment.representable_of_inCalendar hclock (Duration.zero_le_ofSeconds _) hcalendar

def beats : RuleSet :=
  { rules := [{ name := .text "beat", periodic := [.every (.ofSeconds 10)], actions := [.record] }] }

def beating : Rehearsal :=
  match begin beats (.onDay 739256 0 (some 0)) none with
  | .ok r => r
  | .error _ => default

theorem delay_add_beating : beating.clock.now.InCalendar ∧
    ∀ r', beating.DelaysTo (.int ((10 + 15 : Nat) : Int)) r' ↔
      ∃ mid, beating.DelaysTo (.int (10 : Nat)) mid ∧ mid.DelaysTo (.int (15 : Nat)) r' :=
  ⟨by decide +kernel, delay_add (by decide +kernel) 10 15⟩

example : ((beating.delay 5 (.int 25)).1.service.world.engine.history.map (·.time)) =
    [.onDay 739256 10000000 (some 0), .onDay 739256 20000000 (some 0)] := by decide +kernel

end Rehearsal
end Domotics
