import Domotics.Number
import Mathlib.Algebra.Group.Nat.Defs

/-!
Integers as floating-point numbers. An integer of at most 53 significant binary digits is kept as it is, and any other
one is moved to a neighbour, which is an integer again, or to an infinity.
-/

namespace Domotics

namespace Binary64

theorem pos_one : 0 < one := by decide +kernel

theorem limit_pos : 0 < limit := by decide +kernel

theorem mul_one_lt_limit_iff (k : Nat) : k * one < limit ↔ k < 2 ^ 1024 := by
  have hlimit : limit = 2 ^ 1024 * one := by decide +kernel
  generalize 2 ^ 1024 = bound at *
  rw [hlimit, Nat.mul_lt_mul_right pos_one]

/-- The number one is a power of two. Its exponent is kept apart, since the power is too large to be computed in passing. -/
theorem exists_one_eq : ∃ exponent, one = 2 ^ exponent ∧ exponent = 1074 := ⟨1074, by decide +kernel, rfl⟩

theorem spacing_eq (units : Nat) : spacing units = 2 ^ (units.log2 - 52) := rfl

theorem spacing_pos (units : Nat) : 0 < spacing units := Nat.two_pow_pos _

@[simp] theorem roundUnits_zero (den : Nat) : roundUnits 0 den = 0 := by
  simp [roundUnits, nearest]

theorem nearest_mul {den : Nat} (hden : 0 < den) (q : Nat) : nearest (den * q) den = q := by
  rw [nearest, Nat.mul_mod_right, Nat.mul_div_cancel_left q hden, Nat.mul_zero, if_pos hden]

theorem spacing_dvd_roundUnits (units : Nat) : spacing units ∣ roundUnits units 1 := by
  rw [roundUnits, Nat.div_one]
  exact Nat.dvd_mul_right ..

/-- A count of units is kept if it is a whole number of distances of neighbours. -/
theorem roundUnits_eq_self_iff (units : Nat) : roundUnits units 1 = units ↔ spacing units ∣ units := by
  constructor
  · intro h
    have hdvd := spacing_dvd_roundUnits units
    rwa [h] at hdvd
  · rintro ⟨q, hq⟩
    rw [roundUnits, Nat.div_one, Nat.one_mul]
    calc spacing units * nearest units (spacing units)
        = spacing units * nearest (spacing units * q) (spacing units) := by rw [← hq]
      _ = units := by rw [nearest_mul (spacing_pos units), ← hq]

theorem log2_mul_two_pow {k : Nat} (hk : k ≠ 0) (e : Nat) : (k * 2 ^ e).log2 = k.log2 + e := by
  rw [Nat.log2_eq_iff (Nat.mul_ne_zero hk (Nat.ne_of_gt (Nat.two_pow_pos e)))]
  constructor
  · rw [Nat.pow_add]
    exact Nat.mul_le_mul_right _ (Nat.log2_self_le hk)
  · rw [Nat.add_right_comm, Nat.pow_add]
    exact Nat.mul_lt_mul_of_pos_right Nat.lt_log2_self (Nat.two_pow_pos e)

theorem spacing_mul_one_of_le {k : Nat} (h : 52 ≤ k.log2) : spacing (k * one) = spacing k * one := by
  have hk : k ≠ 0 := by
    rintro rfl
    simp at h
  obtain ⟨e, hone, he⟩ := exists_one_eq
  rw [spacing_eq, spacing_eq, hone, log2_mul_two_pow hk, ← Nat.pow_add, Nat.sub_add_comm h]

theorem spacing_mul_one_dvd_one {k : Nat} (h : k.log2 ≤ 52) : spacing (k * one) ∣ one := by
  by_cases hk : k = 0
  · rw [hk, Nat.zero_mul, spacing_eq, Nat.log2_zero]
    exact Nat.one_dvd _
  · obtain ⟨e, hone, he⟩ := exists_one_eq
    rw [spacing_eq, hone, log2_mul_two_pow hk]
    exact Nat.pow_dvd_pow 2 (by omega)

theorem spacing_mul_one_dvd_iff (k : Nat) : spacing (k * one) ∣ k * one ↔ spacing k ∣ k := by
  rcases Nat.le_total 52 k.log2 with hle | hle
  · rw [spacing_mul_one_of_le hle, Nat.mul_dvd_mul_iff_right pos_one]
  · have hspacing : spacing k = 1 := by
      rw [spacing_eq, Nat.sub_eq_zero_of_le hle, Nat.pow_zero]
    rw [hspacing]
    exact iff_of_true (Nat.dvd_mul_left_of_dvd (spacing_mul_one_dvd_one hle) k) (Nat.one_dvd k)

theorem one_dvd_roundUnits (k : Nat) : one ∣ roundUnits (k * one) 1 := by
  rcases Nat.le_total 52 k.log2 with hle | hle
  · have hdvd := spacing_dvd_roundUnits (k * one)
    rw [spacing_mul_one_of_le hle] at hdvd
    exact Nat.dvd_trans (Nat.dvd_mul_left ..) hdvd
  · have hkept := (roundUnits_eq_self_iff (k * one)).mpr (Nat.dvd_mul_left_of_dvd (spacing_mul_one_dvd_one hle) k)
    rw [hkept]
    exact Nat.dvd_mul_left ..

theorem spacing_dvd_iff (k : Nat) : spacing k ∣ k ↔ ∃ digits shift, digits < 2 ^ 53 ∧ k = digits * 2 ^ shift := by
  constructor
  · rintro ⟨digits, hdigits⟩
    refine ⟨digits, k.log2 - 52, ?_, by rw [Nat.mul_comm, ← spacing_eq, ← hdigits]⟩
    have hlt : digits * 2 ^ (k.log2 - 52) < 2 ^ 53 * 2 ^ (k.log2 - 52) := by
      rw [Nat.mul_comm, ← spacing_eq, ← hdigits, spacing_eq, ← Nat.pow_add]
      exact Nat.lt_of_lt_of_le Nat.lt_log2_self (Nat.pow_le_pow_right (by decide) (by omega))
    exact Nat.lt_of_mul_lt_mul_right hlt
  · rintro ⟨digits, shift, hdigits, rfl⟩
    by_cases hzero : digits * 2 ^ shift = 0
    · rw [hzero]
      exact Nat.dvd_zero _
    · have hlog : (digits * 2 ^ shift).log2 < 53 + shift := by
        rw [Nat.log2_lt hzero, Nat.pow_add]
        exact Nat.mul_lt_mul_of_pos_right hdigits (Nat.two_pow_pos shift)
      rw [spacing_eq]
      exact Nat.dvd_mul_left_of_dvd (Nat.pow_dvd_pow 2 (by omega)) digits

/-- The integers that a floating-point number can be: within the range, with at most 53 significant binary digits. -/
def Holds (n : Int) : Prop :=
  n.natAbs < 2 ^ 1024 ∧ ∃ digits shift, digits < 2 ^ 53 ∧ n.natAbs = digits * 2 ^ shift

theorem holds_of_le {n : Int} (h : n.natAbs ≤ 2 ^ 53) : Holds n := by
  have hrange : 2 ^ 53 < 2 ^ 1024 := by decide +kernel
  refine ⟨Nat.lt_of_le_of_lt h hrange, ?_⟩
  rcases Nat.lt_or_eq_of_le h with hlt | heq
  · exact ⟨n.natAbs, 0, hlt, (Nat.mul_one _).symm⟩
  · exact ⟨1, 53, by decide, by rw [heq, Nat.one_mul]⟩

theorem ofInt_eq (n : Int) : ofInt n =
    if roundUnits (n.natAbs * one) 1 < limit then finite (n < 0) (roundUnits (n.natAbs * one) 1)
    else infinite (n < 0) := rfl

theorem ofRatio_natCast (n : Nat) : ofRatio false n 1 = ofInt n := by
  rw [ofInt, decide_eq_false (Int.not_lt.mpr (Int.natCast_nonneg n)), Int.natAbs_natCast]

theorem isInteger_ofInt (n : Int) (negative : Bool) (units : Nat) (h : ofInt n = finite negative units) :
    (ofInt n).isInteger = true := by
  have heq := ofInt_eq n
  rw [h] at heq ⊢
  split at heq
  · cases heq
    rw [isInteger, beq_iff_eq]
    exact Nat.mod_eq_zero_of_dvd (one_dvd_roundUnits n.natAbs)
  · cases heq

/-- A number that is held is not moved. -/
theorem Holds.ofInt {n : Int} (h : Holds n) : ofInt n = finite (n < 0) (n.natAbs * one) := by
  have hkept : roundUnits (n.natAbs * one) 1 = n.natAbs * one := by
    rw [roundUnits_eq_self_iff, spacing_mul_one_dvd_iff, spacing_dvd_iff]
    exact h.2
  rw [ofInt_eq, hkept, if_pos ((mul_one_lt_limit_iff n.natAbs).mpr h.1)]

theorem ofDecimal_zero (negative : Bool) (digits : Nat) : ofDecimal negative digits 0 = ofRatio negative digits 1 := by
  by_cases hzero : digits = 0
  · rw [hzero, ofDecimal, if_pos rfl, ofRatio, Nat.zero_mul, ofUnits, roundUnits_zero, if_pos limit_pos]
  · rw [ofDecimal, if_neg hzero, if_neg (by decide), if_neg (by omega), if_pos (Int.le_refl 0)]
    exact congrArg (ofRatio negative · 1) (Nat.mul_one digits)

theorem signedUnits_natAbs (n : Int) : signedUnits (n < 0) n.natAbs = n := by
  by_cases h : n < 0
  · simp only [signedUnits, h, decide_true, if_true]
    omega
  · simp only [signedUnits, h, decide_false]
    exact Int.natAbs_of_nonneg (Int.not_lt.mp h)

theorem truncate_mul_one (negative : Bool) (k : Nat) : truncate negative (k * one) = signedUnits negative k := by
  rw [truncate, Nat.mul_div_cancel k pos_one]

end Binary64

namespace Number

open Binary64

/-- A floating-point number that has no fraction, as an exact integer. An infinity stays as it is. -/
def ofWhole : Binary64 → Number
  | .finite negative units => int (truncate negative units)
  | x => real x

/-- Just the integers that a floating-point number can be are left as they were by becoming one. -/
theorem ofWhole_ofInt_equals_iff (n : Int) : (ofWhole (ofInt n)).equals (int n) = true ↔ Holds n := by
  constructor
  · intro h
    rw [ofInt_eq] at h
    by_cases hlimit : roundUnits (n.natAbs * one) 1 < limit
    · obtain ⟨k, hk⟩ := one_dvd_roundUnits n.natAbs
      rw [Nat.mul_comm one k] at hk
      rw [if_pos hlimit, hk, ofWhole, truncate_mul_one, equals_int, beq_iff_eq] at h
      have hsame : k = n.natAbs := by
        rw [← h]
        cases decide (n < 0) <;> simp [signedUnits]
      rw [hsame] at hk
      rw [hk, mul_one_lt_limit_iff] at hlimit
      rw [roundUnits_eq_self_iff, spacing_mul_one_dvd_iff, spacing_dvd_iff] at hk
      exact ⟨hlimit, hk⟩
    · rw [if_neg hlimit, ofWhole] at h
      · cases hsign : decide (n < 0) <;> simp [hsign, equals, compare?, compareInt?] at h
      · intro negative units heq
        cases heq
  · intro h
    rw [h.ofInt, ofWhole, truncate_mul_one, signedUnits_natAbs, equals_int, beq_self_eq_true]

end Number
end Domotics
