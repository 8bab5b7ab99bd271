import Domotics.Proofs.Periodic.Recurrence

/-!
Where bounds lie. On a calendar day a bound resolves to its place, if the calendar goes so far. When the sun
keeps to its days, the places of a bound come in the order of their days, however far the bound lies before
or after the day to which it belongs.
-/

namespace Domotics

namespace Moment

variable {t u : Moment}

def ifInCalendar (m : Moment) : Result Moment := if m.InCalendar then .ok m else Result.misuse .dateRange

theorem ifInCalendar_eq_ok_iff : t.ifInCalendar = .ok u ↔ t.InCalendar ∧ u = t := by
  rw [ifInCalendar]
  split_ifs with h <;> simp [h, eq_comm]

theorem shift_eq (t : Moment) (d : Duration) : t.shift d = (t.plus d).ifInCalendar := by
  rw [shift, shift?, ifInCalendar]
  split_ifs <;> rfl

theorem Before.plus (h : t.Before u) (d : Duration) : (t.plus d).Before (u.plus d) := by
  refine ⟨h.1, ?_⟩
  have hlt := h.2
  simp only [instant_plus]
  omega

theorem startOf_before {d e : Nat} (h : d < e) (offset : Option Int) :
    (startOf d offset).Before (startOf e offset) := by
  refine ⟨rfl, ?_⟩
  have hticks : (d : Int) * Duration.perDay < e * Duration.perDay :=
    Int.mul_lt_mul_of_pos_right (Int.ofNat_lt.mpr h) (by decide)
  simp only [instant, startOf, onDay]
  omega

theorem startOf_notAfter {d e : Nat} (h : d ≤ e) (offset : Option Int) :
    (startOf d offset).NotAfter (startOf e offset) := by
  rcases Nat.eq_or_lt_of_le h with rfl | hlt
  · exact .refl _
  · exact (startOf_before hlt offset).notAfter

end Moment

namespace SolarCalendar

variable {s : SolarCalendar} {offset : Option Int}

/-- A calendar whose times fall on the days they belong to, all of them with one offset. -/
structure KeepsDays (s : SolarCalendar) (offset : Option Int) : Prop where
  day : ∀ d : Nat, d < Day.count → ∀ a, (s.time d a).day = d
  offset : ∀ d : Nat, d < Day.count → ∀ a, (s.time d a).offset = offset

theorem Fixed.keepsDays (h : s.Fixed offset) (hsunrise : s.sunrise.inRange) (hnoon : s.noon.inRange)
    (hsunset : s.sunset.inRange) : s.KeepsDays offset := by
  have hclock (c : Clock) (hc : c.inRange) : c.sinceMidnight < Duration.perDay := by
    simp only [Clock.inRange, Bool.and_eq_true, decide_eq_true_eq] at hc
    simp only [Clock.sinceMidnight, Duration.perDay, Duration.perSecond] at *
    omega
  have htime (d : Day) (a : Anchor) : ∃ n < Duration.perDay, s.time d a = .onDay d n offset := by
    rw [SolarCalendar.time, h.almanac, Option.getD_none, usual.eq_def, h.offset]
    cases a with
    | sunrise => exact ⟨_, hclock _ hsunrise, rfl⟩
    | noon => exact ⟨_, hclock _ hnoon, rfl⟩
    | sunset => exact ⟨_, hclock _ hsunset, rfl⟩
    | midnight => exact ⟨0, by decide, rfl⟩
  refine ⟨fun d _ a => ?_, fun d _ a => ?_⟩
  · obtain ⟨n, hn, heq⟩ := htime d a
    rw [heq]
    show Int.toNat _ = d
    simp only [Moment.onDay, Duration.perDay, Duration.perSecond] at hn ⊢
    omega
  · obtain ⟨n, -, heq⟩ := htime d a
    rw [heq]
    rfl

end SolarCalendar

namespace Bound

variable {b : Bound} {day : Day} {offset : Option Int} {solar : SolarCalendar} {isEnd : Bool} {u : Moment}

/-- Where a bound lies on a calendar day, whether or not the calendar goes so far. -/
def place (b : Bound) (day : Day) (offset : Option Int) (solar : SolarCalendar) (isEnd : Bool) : Moment :=
  match b.fixed isEnd with
  | some d => (Moment.startOf day offset).plus d
  | none =>
    let a := match b.base with
      | .anchor a => a
      | .clock _ => .midnight
    (solar.time day a).plus b.offset

theorem resolve_eq : b.resolve day offset solar isEnd =
    b.fixedOffset isEnd >>= fun _ => (b.place day offset solar isEnd).ifInCalendar := by
  rw [resolve, fixedOffset, place.eq_def]
  cases b.fixed isEnd with
  | none => exact Moment.shift_eq ..
  | some d =>
    by_cases hd : d.Representable
    · simp only [Duration.check, if_pos hd]
      exact Moment.shift_eq ..
    · simp only [Duration.check, if_neg hd]
      rfl

theorem eq_place_of_resolve (h : b.resolve day offset solar isEnd = .ok u) :
    u = b.place day offset solar isEnd := by
  rw [resolve_eq] at h
  obtain ⟨-, -, h⟩ := Result.bind_eq_ok.mp h
  exact (Moment.ifInCalendar_eq_ok_iff.mp h).2

theorem place_before (hsolar : solar.KeepsDays offset) {d e : Nat} (hlt : d < e) (he : e < Day.count) :
    (b.place d offset solar isEnd).Before (b.place e offset solar isEnd) := by
  have htime (a : Anchor) : (solar.time d a).Before (solar.time e a) := by
    have hd := Nat.lt_trans hlt he
    refine Moment.before_of_day_lt ((hsolar.offset d hd a).trans (hsolar.offset e he a).symm) ?_
    rwa [hsolar.day d hd, hsolar.day e he]
  rw [place.eq_def, place.eq_def]
  cases b.fixed isEnd with
  | some known => exact (Moment.startOf_before hlt offset).plus known
  | none => exact (htime _).plus b.offset

end Bound
end Domotics
