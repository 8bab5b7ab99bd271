import Domotics.Proofs.Schedule.Place

/-!
The next time of a bound. The search goes through the days from that of the present on, and what it finds is the
first time after the present that belongs to any of these days. Days that are over are left out. As the times of
a bound come in the order of their days, the result is the first of all times just if the times of those days
have passed, as they have for a bound that does not run beyond the end of its day.
-/

namespace Domotics

theorem Moment.startOf_day_notAfter {t : Moment} (h : 0 < (t.day : Nat)) : (startOf t.day t.offset).NotAfter t := by
  refine ⟨rfl, ?_⟩
  simp only [day, instant, startOf, onDay, Duration.perDay, Duration.perSecond] at h ⊢
  replace h : 0 < Int.toNat _ := h
  omega

namespace Bound

variable {b : Bound} {after t u : Moment} {solar : SolarCalendar} {weekday : Option Weekday} {day : Nat}
  {offset : Option Int}

theorem firstOn_of_occurrenceFrom {n : Nat} (h : b.occurrenceFrom after solar weekday day n = .ok t) :
    ∃ found : Nat, found < Day.count ∧ b.FirstOn after solar weekday day found t := by
  induction n generalizing day with
  | zero => cases h
  | succ n ih =>
    rw [occurrenceFrom] at h
    by_cases hend : Day.count ≤ day
    · rw [if_pos hend] at h
      cases h
    rw [if_neg hend] at h
    by_cases hday : Day.Suits weekday day
    · rw [if_neg (Day.suits_iff.mp hday)] at h
      obtain ⟨v, hv, h⟩ := Result.bind_eq_ok.mp h
      obtain ⟨o, horder, h⟩ := Result.bind_eq_ok.mp h
      by_cases hlater : o = .gt
      · rw [if_pos hlater] at h
        cases h
        have hbefore : after.Before t := Moment.order_eq_gt_iff.mp (hlater ▸ horder)
        exact ⟨day, Nat.lt_of_not_le hend, Nat.le_refl _, hday, hv, hbefore,
          fun d hle hlt => absurd hlt (Nat.not_lt.mpr hle)⟩
      · rw [if_neg hlater] at h
        obtain ⟨found, hfound, hfirst⟩ := ih h
        refine ⟨found, hfound, hfirst.skip fun _ w hw => ?_⟩
        cases hv.symm.trans hw
        exact Moment.order_ne_gt_iff.mp ⟨o, horder, hlater⟩
    · rw [if_pos (Decidable.not_not.mp (mt Day.suits_iff.mpr hday))] at h
      obtain ⟨found, hfound, hfirst⟩ := ih h
      exact ⟨found, hfound, hfirst.skip fun hsuits => absurd hsuits hday⟩

theorem before_of_resolve (hsolar : solar.KeepsDays offset) {d e : Nat} (hlt : d < e) (he : e < Day.count)
    (ht : b.resolve d offset solar false = .ok t) (hu : b.resolve e offset solar false = .ok u) :
    t.Before u := by
  rw [eq_place_of_resolve ht, eq_place_of_resolve hu]
  exact place_before hsolar hlt he

/-- What a search from some day on has found is not after anything that belongs to one of these days. -/
theorem FirstOn.notAfter (hsolar : solar.KeepsDays after.offset) {found d : Nat} (hd : d < Day.count)
    (h : b.FirstOn after solar weekday day found t) (hle : day ≤ d) (hsuits : Day.Suits weekday d)
    (hu : b.resolve d after.offset solar false = .ok u) (hbefore : after.Before u) : t.NotAfter u := by
  rcases Nat.lt_trichotomy d found with hlt | rfl | hgt
  · exact absurd (h.earlier d hle hlt hsuits u hu) hbefore.not_notAfter
  · cases hu.symm.trans h.resolves
    exact .refl t
  · exact (before_of_resolve hsolar hgt hd h.resolves hu).notAfter

/-- The next time of a bound lies after the present and belongs to a suitable day. Of all times after the present
that belong to such days from that of the present on it is the first. It is the first of all, those of earlier days
among them, just if these have passed; and they have passed for a bound that on no earlier day runs beyond the end
of the day. -/
theorem nextOccurrence_first_of_days_ahead (hsolar : solar.KeepsDays after.offset)
    (h : b.nextOccurrence after solar weekday = .ok t) :
    after.Before t ∧ b.OccursAt weekday solar after.offset t ∧
      (∀ d : Nat, after.day ≤ d → d < Day.count → Day.Suits weekday d →
        ∀ u, b.resolve d after.offset solar false = .ok u → after.Before u → t.NotAfter u) ∧
      (after.FirstAfter (b.OccursAt weekday solar after.offset) t ↔
        ∀ d : Nat, d < after.day → Day.Suits weekday d →
          ∀ u, b.resolve d after.offset solar false = .ok u → ¬ after.Before u) ∧
      ((∀ d : Nat, d < after.day → ∀ u, b.resolve d after.offset solar false = .ok u →
          u.NotAfter (Moment.startOf (d + 1 : Nat) after.offset)) →
        after.FirstAfter (b.OccursAt weekday solar after.offset) t) := by
  obtain ⟨found, hfound, hfirst⟩ := firstOn_of_occurrenceFrom h
  have hoccurs : b.OccursAt weekday solar after.offset t := ⟨found, hfound, hfirst.suits, hfirst.resolves⟩
  have hahead : ∀ d : Nat, after.day ≤ d → d < Day.count → Day.Suits weekday d →
      ∀ u, b.resolve d after.offset solar false = .ok u → after.Before u → t.NotAfter u :=
    fun d hle hd hsuits u hu hbefore => hfirst.notAfter hsolar hd hle hsuits hu hbefore
  have hpassed : (∀ d : Nat, d < after.day → Day.Suits weekday d →
      ∀ u, b.resolve d after.offset solar false = .ok u → ¬ after.Before u) →
        after.FirstAfter (b.OccursAt weekday solar after.offset) t := by
    intro hearlier
    refine ⟨hoccurs, hfirst.before, ?_⟩
    rintro u ⟨d, hd, hsuits, hu⟩ hbefore
    rcases Nat.lt_or_ge d after.day with hlt | hge
    · exact absurd hbefore (hearlier d hlt hsuits u hu)
    · exact hahead d hge hd hsuits u hu hbefore
  refine ⟨hfirst.before, hoccurs, hahead, ⟨fun hleast d hlt hsuits u hu hbefore => ?_, hpassed⟩, fun hends => ?_⟩
  · -- A time of an earlier day comes before the one that was found.
    have hdays : d < found := Nat.lt_of_lt_of_le hlt hfirst.le
    have hsooner : u.Before t := before_of_resolve hsolar hdays hfound hu hfirst.resolves
    exact hsooner.not_notAfter (hleast.least u ⟨d, Nat.lt_trans hdays hfound, hsuits, hu⟩ hbefore)
  · refine hpassed fun d hlt _ u hu hbefore => hbefore.not_notAfter ?_
    have hend : u.NotAfter (Moment.startOf after.day after.offset) :=
      (hends d hlt u hu).trans (Moment.startOf_notAfter hlt after.offset)
    exact hend.trans (Moment.startOf_day_notAfter (Nat.zero_lt_of_lt hlt))

/-- Eight hours after a sunset at six, which is two o'clock in the night that follows. -/
def deepNight : Bound := ⟨.anchor .sunset, .ofSeconds (8 * 3600)⟩

def tuesday (minutes : Nat) : Moment := .onDay 739257 (minutes * 60 * Duration.perSecond) (some 0)

/-- At three o'clock the night of Monday has had its time, and that of Tuesday is the next one. -/
theorem nextOccurrence_first_of_days_ahead_night :
    ({} : SolarCalendar).KeepsDays (some 0) ∧
      deepNight.nextOccurrence (tuesday 180) {} none = .ok (tuesday (26 * 60)) ∧
      (tuesday 180).FirstAfter (deepNight.OccursAt none {} (some 0)) (tuesday (26 * 60)) := by
  have hsun : ({} : SolarCalendar).KeepsDays (some 0) :=
    SolarCalendar.Fixed.keepsDays ⟨rfl, rfl⟩ (by decide) (by decide) (by decide)
  have hnext : deepNight.nextOccurrence (tuesday 180) {} none = .ok (tuesday (26 * 60)) :=
    Result.ok_of_toOption (by decide +kernel)
  obtain ⟨-, -, -, hiff, -⟩ := nextOccurrence_first_of_days_ahead hsun hnext
  refine ⟨hsun, hnext, hiff.mpr fun d hlt _ u hu hbefore => ?_⟩
  have hmonday : deepNight.resolve 739256 (some 0) {} false = .ok (tuesday 120) :=
    Result.ok_of_toOption (by decide +kernel)
  have hpassed : (tuesday 120).NotAfter (tuesday 180) := ⟨rfl, by decide +kernel⟩
  rcases Nat.lt_or_eq_of_le (Nat.le_of_lt_succ (show d < 739256 + 1 from hlt)) with hsooner | rfl
  · exact hbefore.not_notAfter ((before_of_resolve hsun hsooner (by decide) hu hmonday).notAfter.trans hpassed)
  · cases hu.symm.trans hmonday
    exact hbefore.not_notAfter hpassed

/-- At half past twelve that time is still to come, but it belongs to Monday, which is over, and so the search passes
it over. -/
theorem night_of_day_before_passed_over :
    deepNight.nextOccurrence (tuesday 30) {} none = .ok (tuesday (26 * 60)) ∧
      deepNight.OccursAt none {} (some 0) (tuesday 120) ∧ (tuesday 30).Before (tuesday 120) ∧
      (tuesday 120).Before (tuesday (26 * 60)) ∧
      ¬ (tuesday 30).FirstAfter (deepNight.OccursAt none {} (some 0)) (tuesday (26 * 60)) := by
  have hnext : deepNight.nextOccurrence (tuesday 30) {} none = .ok (tuesday (26 * 60)) :=
    Result.ok_of_toOption (by decide +kernel)
  have hmonday : deepNight.OccursAt none {} (some 0) (tuesday 120) :=
    ⟨739256, by decide, by decide, Result.ok_of_toOption (by decide +kernel)⟩
  have hlater : (tuesday 30).Before (tuesday 120) := ⟨rfl, by decide +kernel⟩
  have hsooner : (tuesday 120).Before (tuesday (26 * 60)) := ⟨rfl, by decide +kernel⟩
  exact ⟨hnext, hmonday, hlater, hsooner, fun h => hsooner.not_notAfter (h.least _ hmonday hlater)⟩

end Bound
end Domotics
