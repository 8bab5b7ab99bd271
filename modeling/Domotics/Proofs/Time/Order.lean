import Domotics.Time.DurationReader

/-!
The order of moments. Two moments have an order when both have an offset or neither has; it is the order
of their instants. A moment that is moved keeps its offset, and what lies between two moments of the
calendar is in it.
-/

namespace Domotics.Moment

/-- The moments `t` and `u` have an order, and `t` is the earlier one. -/
def Before (t u : Moment) : Prop := t.Comparable u ∧ t.instant < u.instant

/-- The moments `t` and `u` have an order, and `t` is not the later one. -/
def NotAfter (t u : Moment) : Prop := t.Comparable u ∧ t.instant ≤ u.instant

variable {t u v : Moment}

instance : Decidable (t.NotAfter u) := inferInstanceAs (Decidable (t.Comparable u ∧ t.instant ≤ u.instant))

theorem Before.notAfter (h : t.Before u) : t.NotAfter u := ⟨h.1, Int.le_of_lt h.2⟩

theorem NotAfter.refl (t : Moment) : t.NotAfter t := ⟨rfl, Int.le_refl _⟩

theorem NotAfter.trans (h₁ : t.NotAfter u) (h₂ : u.NotAfter v) : t.NotAfter v :=
  ⟨h₁.1.trans h₂.1, Int.le_trans h₁.2 h₂.2⟩

theorem Before.trans (h₁ : t.Before u) (h₂ : u.Before v) : t.Before v :=
  ⟨h₁.1.trans h₂.1, Int.lt_trans h₁.2 h₂.2⟩

theorem NotAfter.trans_before (h₁ : t.NotAfter u) (h₂ : u.Before v) : t.Before v :=
  ⟨h₁.1.trans h₂.1, Int.lt_of_le_of_lt h₁.2 h₂.2⟩

theorem Before.trans_notAfter (h₁ : t.Before u) (h₂ : u.NotAfter v) : t.Before v :=
  ⟨h₁.1.trans h₂.1, Int.lt_of_lt_of_le h₁.2 h₂.2⟩

theorem Before.not_notAfter (h : t.Before u) : ¬ u.NotAfter t := fun h' => absurd h.2 (Int.not_lt.mpr h'.2)

theorem before_or_notAfter (h : t.Comparable u) : t.Before u ∨ u.NotAfter t := by
  rcases Int.lt_or_le t.instant u.instant with hlt | hle
  · exact .inl ⟨h, hlt⟩
  · exact .inr ⟨h.symm, hle⟩

theorem order_eq_ok_iff {o : Ordering} :
    t.order u = .ok o ↔ t.Comparable u ∧ compare t.instant u.instant = o := by
  unfold order compare?
  by_cases h : t.Comparable u <;> simp [h]

theorem order_eq_lt_iff : t.order u = .ok .lt ↔ t.Before u := by
  rw [order_eq_ok_iff, Int.compare_eq_lt, Before]

theorem order_eq_gt_iff : t.order u = .ok .gt ↔ u.Before t := by
  rw [order_eq_ok_iff, Int.compare_eq_gt, Before, Comparable, Comparable, eq_comm]

theorem order_ne_gt_iff : (∃ o, t.order u = .ok o ∧ o ≠ .gt) ↔ t.NotAfter u := by
  constructor
  · rintro ⟨o, horder, hne⟩
    obtain ⟨hcomparable, rfl⟩ := order_eq_ok_iff.mp horder
    exact ⟨hcomparable, Int.compare_ne_gt.mp hne⟩
  · rintro ⟨hcomparable, hle⟩
    exact ⟨_, order_eq_ok_iff.mpr ⟨hcomparable, rfl⟩, Int.compare_ne_gt.mpr hle⟩

theorem shift_eq_ok_iff {d : Duration} : t.shift d = .ok u ↔ u = t.plus d ∧ (t.plus d).InCalendar := by
  unfold shift shift?
  by_cases h : (t.plus d).InCalendar <;> simp [h, eq_comm]

theorem plus_plus (t : Moment) (d e : Duration) : (t.plus d).plus e = t.plus (d.plus e) := by
  simp [plus, Int.add_assoc]

theorem instant_plus (t : Moment) (d : Duration) : (t.plus d).instant = t.instant + d.micros := by
  simp only [instant, plus_ticks, plus_offset]
  omega

theorem notAfter_plus {d : Duration} (h : .zero ≤ d) : t.NotAfter (t.plus d) := by
  refine ⟨rfl, ?_⟩
  simp only [Duration.le_def, Duration.zero] at h
  simp only [instant_plus]
  omega

theorem inCalendar_of_between (ht : t.InCalendar) (hv : v.InCalendar) (htu : t.ticks ≤ u.ticks)
    (huv : u.ticks ≤ v.ticks) : u.InCalendar :=
  ⟨Int.le_trans ht.1 htu, Int.lt_of_le_of_lt huv hv.2⟩

end Domotics.Moment
