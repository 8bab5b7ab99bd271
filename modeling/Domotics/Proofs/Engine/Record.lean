import Domotics.Proofs.Engine.Load
import Mathlib.Algebra.Order.Ring.Int

/-!
The record of fires. Names that agree are one name, whichever kinds of numbers they are, so there is one count of fires
for each name; and of the history, which keeps the last fires only, nothing more is lost when it is cut more than once.
-/

namespace Domotics

namespace Binary64

theorem one_ne_zero : (one : Int) ≠ 0 := by decide +kernel

def place : Binary64 → Option (Bool ⊕ Int)
  | nan => none
  | infinite s => some (.inl s)
  | finite s units => some (.inr (signedUnits s units))

theorem place_eq_none_iff (x : Binary64) : x.place = none ↔ x = nan := by cases x <;> simp [place]

theorem compare?_eq_iff (x y : Binary64) : x.compare? y = some .eq ↔ x.place = y.place ∧ x ≠ nan := by
  cases x with
  | nan => cases y <;> simp [compare?]
  | infinite s => cases y <;> cases s <;> simp [compare?, place]
  | finite s a =>
    cases y with
    | nan => simp [compare?, place]
    | infinite t => cases t <;> simp [compare?, place]
    | finite t b => simp [compare?, place]

theorem compareInt?_eq_iff (n : Int) (x : Binary64) : compareInt? n x = some .eq ↔ some (.inr (n * one)) = x.place := by
  rw [compareInt?.eq_def]
  -- The size of the unit does not matter.
  generalize n * one = k
  cases x with
  | nan => simp [place]
  | infinite s => cases s <;> simp [place]
  | finite s a => simp [place]

end Binary64

namespace Number

def place : Number → Option (Bool ⊕ Int)
  | int n => some (.inr (n * Binary64.one))
  | real x => x.place

theorem place_eq_none_iff (x : Number) : x.place = none ↔ x = real .nan := by
  cases x with
  | int n => exact ⟨nofun, nofun⟩
  | real x => rw [place, Binary64.place_eq_none_iff, real.injEq]

theorem int_equals_iff_place (m : Int) (y : Number) : (int m).equals y = true ↔ (int m).place = y.place := by
  rw [equals, beq_iff_eq]
  cases y with
  | int n =>
    have hunits : m * Binary64.one = n * Binary64.one ↔ m = n := Int.mul_eq_mul_right_iff Binary64.one_ne_zero
    rw [compare?, place, place, Option.some.injEq, Option.some.injEq, Sum.inr.injEq, hunits, compare_eq_iff_eq]
  | real y => rw [compare?, place, place, Binary64.compareInt?_eq_iff]

theorem equals_iff_place (x y : Number) : x.equals y = true ↔ x.place = y.place ∧ x ≠ real .nan := by
  cases x with
  | int m => simp [int_equals_iff_place]
  | real x =>
    cases y with
    | int n =>
      have hnan (h : (real x).place = (int n).place) : real x ≠ real .nan := by
        rw [ne_eq, ← place_eq_none_iff, h]
        exact nofun
      rw [equals_comm, int_equals_iff_place, eq_comm]
      exact ⟨fun h => ⟨h, hnan h⟩, fun h => h.1⟩
    | real y => rw [equals, beq_iff_eq, compare?, Binary64.compare?_eq_iff, ne_eq, ne_eq, real.injEq, place, place]

/-- Numbers agree if they stand at one place. -/
theorem agrees_iff_place (x y : Number) : x.agrees y = true ↔ x.place = y.place := by
  rw [agrees, Bool.or_eq_true, Bool.and_eq_true, beq_iff_eq, beq_iff_eq, equals_iff_place, ← place_eq_none_iff,
    ← place_eq_none_iff]
  constructor
  · rintro (⟨hx, hy⟩ | ⟨h, -⟩)
    · rw [hx, hy]
    · exact h
  · intro h
    by_cases hx : x.place = none
    · exact .inl ⟨hx, h ▸ hx⟩
    · exact .inr ⟨h, fun hnan => hx (x.place_eq_none_iff.mpr hnan)⟩

end Number

namespace Document

/-- What names are looked up by: the place of a number, or a text. -/
def key : Document → Option (Option (Bool ⊕ Int) ⊕ Option String)
  | null => some (.inr none)
  | bool b => some (.inl (Number.int (if b then 1 else 0)).place)
  | number x => some (.inl x.place)
  | text s => some (.inr (some s))
  | list _ | object _ => none

theorem agrees_iff_key (d : Document) {e : Document} (he : e.isScalar = true) : d.agrees e = true ↔ d.key = e.key := by
  cases d <;> cases e <;> simp_all [agrees, key, toNumber?, isScalar, Number.agrees_iff_place]

end Document

namespace Engine

variable {name : Document}

theorem count_countUp_eq {fired : Document} (hfired : fired.isScalar = true) (hname : name.isScalar = true)
    (counts : List (Document × Nat)) : (((countUp fired counts).find? (·.1.agrees name)).map (·.2)).getD 0 =
      ((counts.find? (·.1.agrees name)).map (·.2)).getD 0 + if fired.agrees name then 1 else 0 := by
  induction counts with
  | nil => cases hagrees : fired.agrees name <;> simp [countUp, hagrees]
  | cons entry rest ih =>
    have hentry := entry.1.agrees_iff_key hfired
    have hlooked := entry.1.agrees_iff_key hname
    have hsame := fired.agrees_iff_key hname
    rw [countUp]
    cases hagrees : entry.1.agrees fired with
    | true =>
      -- The count of the fired rule stands here, so this is the count that is looked up if the names agree.
      have hboth : entry.1.agrees name = fired.agrees name := by
        rw [Bool.eq_iff_iff, hlooked, hsame, hentry.mp hagrees]
      cases hfound : fired.agrees name <;> simp [hboth, hfound]
    | false =>
      cases hfound : entry.1.agrees name with
      | false => simpa [hfound] using ih
      | true =>
        have hother : fired.agrees name = false := by
          rw [Bool.eq_false_iff, ne_eq, hsame, ← hlooked.mp hfound]
          exact fun h => by simp [hentry.mpr h.symm] at hagrees
        simp [hfound, hother]

variable {α : Type}

theorem lastOf_of_length_le {n : Nat} {xs : List α} (h : xs.length ≤ n) : lastOf n xs = xs := by
  rw [lastOf, Nat.sub_eq_zero_of_le h, List.drop_zero]

/-- What has been cut off before is cut off anyway when more follows. -/
theorem lastOf_append_lastOf (n : Nat) (xs ys : List α) : lastOf n (lastOf n xs ++ ys) = lastOf n (xs ++ ys) := by
  rcases Nat.le_total xs.length n with hle | hle
  · rw [lastOf_of_length_le hle]
  · have hcut : (lastOf n xs).length = n := by
      rw [lastOf, List.length_drop]
      omega
    have htake : (xs.take (xs.length - n)).length = xs.length - n := by
      rw [List.length_take]
      omega
    have hsplit : xs.take (xs.length - n) ++ lastOf n xs = xs := List.take_append_drop ..
    calc lastOf n (lastOf n xs ++ ys)
        = (lastOf n xs ++ ys).drop ys.length := by rw [lastOf, List.length_append, hcut, Nat.add_sub_cancel_left]
      _ = (xs.take (xs.length - n) ++ (lastOf n xs ++ ys)).drop ((xs.take (xs.length - n)).length + ys.length) :=
        (List.drop_length_add_append ..).symm
      _ = (xs ++ ys).drop (xs.length - n + ys.length) := by rw [← List.append_assoc, hsplit, htake]
      _ = lastOf n (xs ++ ys) := by rw [lastOf, List.length_append, Nat.sub_add_comm hle]

end Engine
end Domotics
