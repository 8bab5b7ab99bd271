import Domotics.Proofs.Binary64.Integer
import Domotics.Rehearsal

/-!
A number of seconds that is not below zero is a duration that is not below zero, also after rounding.
-/

namespace Domotics

namespace Binary64

/-- A finite number that is not below zero: a count of units without a sign, or a zero of either sign. -/
def FiniteNonneg (negative : Bool) (units : Nat) : Prop := negative = false ∨ units = 0

theorem signedUnits_nonneg {negative : Bool} {units : Nat} (h : FiniteNonneg negative units) :
    0 ≤ signedUnits negative units := by
  rcases h with rfl | rfl
  · exact Int.natCast_nonneg units
  · simp

theorem finiteNonneg_of_signedUnits {negative : Bool} {units : Nat}
    (h : ¬ signedUnits negative units < 0) : FiniteNonneg negative units := by
  cases negative with
  | false => exact .inl rfl
  | true =>
    simp only [signedUnits, if_true] at h
    exact .inr (by omega)

theorem finiteNonneg_of_ofUnits {negative s : Bool} {num den units : Nat}
    (h : ofUnits negative num den = .finite s units) (hnum : FiniteNonneg negative num) :
    FiniteNonneg s units := by
  rw [ofUnits] at h
  split at h
  · cases h
    rcases hnum with rfl | rfl
    · exact .inl rfl
    · exact .inr (roundUnits_zero den)
  · cases h

inductive IsUnsigned : Binary64 → Prop
  | finite (units : Nat) : IsUnsigned (.finite false units)
  | infinite : IsUnsigned (.infinite false)

theorem isUnsigned_ite (p : Prop) [Decidable p] (units : Nat) :
    IsUnsigned (if p then .finite false units else .infinite false) := by
  split
  · exact .finite units
  · exact .infinite

theorem isUnsigned_ofUnits (num den : Nat) : (ofUnits false num den).IsUnsigned := by
  rw [ofUnits]
  exact isUnsigned_ite _ _

theorem isUnsigned_ofRatio (num den : Nat) : (ofRatio false num den).IsUnsigned := by
  rw [ofRatio]
  exact isUnsigned_ofUnits _ _

theorem isUnsigned_ofInt (n : Nat) : (ofInt n).IsUnsigned := by
  rw [← ofRatio_natCast]
  exact isUnsigned_ofRatio n 1

theorem finiteNonneg_of_mul {negative s : Bool} {a units : Nat} (n : Nat)
    (h : (Binary64.finite negative a).mul (ofInt n) = .finite s units) (ha : FiniteNonneg negative a) :
    FiniteNonneg s units := by
  have hfactor := isUnsigned_ofInt n
  generalize ofInt n = factor at *
  cases hfactor with
  | finite b =>
    rw [mul] at h
    refine finiteNonneg_of_ofUnits h ?_
    rcases ha with rfl | rfl
    · exact .inl rfl
    · exact .inr (Nat.zero_mul _)
  | infinite =>
    rw [mul] at h
    split at h
    · cases h
    · cases h

end Binary64

open Binary64

theorem nonneg_of_sign {total : Int} (n : Nat) (h : 0 ≤ total) :
    0 ≤ if total < 0 then -(n : Int) else n := by
  rw [if_neg (Int.not_lt.mpr h)]
  exact Int.natCast_nonneg n

theorem Duration.roundMicros_nonneg {whole : Int} {rest : Binary64} (hwhole : 0 ≤ whole)
    (hrest : ∀ s r, rest = .finite s r → FiniteNonneg s r) : 0 ≤ roundMicros whole rest := by
  cases rest with
  | nan => exact hwhole
  | infinite s => exact hwhole
  | finite s r =>
    have htotal : 0 ≤ whole * one + signedUnits s r :=
      Int.add_nonneg (Int.mul_nonneg hwhole (Int.natCast_nonneg one)) (signedUnits_nonneg (hrest s r rfl))
    exact nonneg_of_sign _ htotal

theorem Duration.microsOfReal_nonneg (factor : Nat) {negative : Bool} {units : Nat}
    (h : FiniteNonneg negative units) : 0 ≤ microsOfReal factor negative units := by
  rw [microsOfReal]
  refine roundMicros_nonneg (Int.mul_nonneg (signedUnits_nonneg ?_) (Int.natCast_nonneg factor)) ?_
  · exact h.imp_right fun hzero => by rw [hzero, Nat.zero_div]
  · intro s r hrest
    exact finiteNonneg_of_mul factor hrest (h.imp_right fun hzero => by rw [hzero, Nat.zero_mod])

theorem Number.isNegative_finite (negative : Bool) (units : Nat) :
    (Number.real (.finite negative units)).isNegative = decide (signedUnits negative units < 0) := by
  have hcompare : (Number.real (.finite negative units)).compare? (.int 0) =
      some (compare (0 * (one : Int)) (signedUnits negative units)).swap := rfl
  rw [isNegative, hcompare, Int.zero_mul, Bool.eq_iff_iff]
  cases horder : compare 0 (signedUnits negative units) with
  | lt => simp [Int.not_lt.mpr (Int.le_of_lt (Int.compare_eq_lt.mp horder))]
  | eq => simp [← Int.compare_eq_eq.mp horder]
  | gt => simp [Int.compare_eq_gt.mp horder]

theorem Duration.nonneg_of_ofNumber {x : Number} {d : Duration} (hx : x.isNegative = false)
    (h : ofNumber x = .ok d) : .zero ≤ d := by
  cases x with
  | int n =>
    have hn : ¬ n < 0 := by simpa [Number.isNegative, Int.compare_eq_lt] using hx
    rw [ofNumber, check_eq_ok_iff] at h
    rw [← h.1]
    simp only [Duration.le_def, zero, ofSeconds, perSecond]
    omega
  | real x =>
    cases x with
    | nan => cases h
    | infinite s => cases h
    | finite negative units =>
      rw [Number.isNegative_finite] at hx
      rw [ofNumber, ofReal, check_eq_ok_iff] at h
      rw [← h.1]
      have hmicros := microsOfReal_nonneg perSecond
        (finiteNonneg_of_signedUnits (of_decide_eq_false hx))
      simpa only [Duration.le_def, zero] using hmicros

/-- A delay is not negative. -/
theorem Rehearsal.nonneg_of_delayOf {seconds : Document} {d : Duration}
    (h : delayOf seconds = .ok d) : .zero ≤ d := by
  rw [delayOf] at h
  split at h
  · cases h
  · split at h
    · cases h
    · exact Duration.nonneg_of_ofNumber (Bool.not_eq_true _ ▸ ‹_›) h

end Domotics
