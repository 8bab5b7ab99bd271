/-!
Binary floating-point numbers of 64 bits. A finite number is held as a count of the smallest positive
number `2 ^ -1074`, so that every finite number has one form for each sign, comparison is comparison
of integers, and an operation is its exact result rounded once.
-/

namespace Domotics

/-- A sign with a count of units of `2 ^ -1074`, an infinity, or the value that is not a number. -/
inductive Binary64 where
  | finite (negative : Bool) (units : Nat)
  | infinite (negative : Bool)
  | nan
deriving DecidableEq, Inhabited, Repr

namespace Binary64

def one : Nat := Nat.pow 2 1074

/-- The least count of units that is too large for a finite number. -/
def limit : Nat := Nat.pow 2 2098

/-- The integer nearest to a quotient; a tie goes to the even neighbour. -/
def nearest (num den : Nat) : Nat :=
  let q := num / den
  let r := num % den
  if 2 * r < den then q else if 2 * r > den then q + 1 else if q % 2 = 0 then q else q + 1

/-- The distance of neighbouring numbers around a count of units: 53 binary digits are kept. -/
def spacing (units : Nat) : Nat := Nat.pow 2 (units.log2 - 52)

/-- The quotient `num / den` of units, rounded to 53 binary digits. -/
def roundUnits (num den : Nat) : Nat :=
  let step := spacing (num / den)
  step * nearest num (den * step)

def ofUnits (negative : Bool) (num den : Nat) : Binary64 :=
  let units := roundUnits num den
  if units < limit then finite negative units else infinite negative

def ofRatio (negative : Bool) (num den : Nat) : Binary64 := ofUnits negative (num * one) den

/-- The number nearest to an integer; an infinity when there is none. -/
def ofInt (n : Int) : Binary64 := ofRatio (n < 0) n.natAbs 1

/-- The number nearest to `± digits · 10 ^ power`. Powers that leave every digit outside the range
of finite numbers are not computed. -/
def ofDecimal (negative : Bool) (digits : Nat) (power : Int) : Binary64 :=
  if digits = 0 then finite negative 0
  else if 400 < power then infinite negative
  else if (digits.log2 : Int) + 3 * power < -1100 then finite negative 0
  else if 0 ≤ power then ofRatio negative (digits * Nat.pow 10 power.toNat) 1
  else ofRatio negative digits (Nat.pow 10 (-power).toNat)

def zero : Binary64 := finite false 0

def signedUnits (negative : Bool) (units : Nat) : Int := if negative then -units else units

/-- The number nearest to a signed quotient of units; an exact zero is positive. -/
def ofSignedUnits (num : Int) (den : Nat) : Binary64 := ofUnits (num < 0) num.natAbs den

def add : Binary64 → Binary64 → Binary64
  | nan, _ => nan
  | _, nan => nan
  | infinite s, infinite t => if s = t then infinite s else nan
  | infinite s, finite _ _ => infinite s
  | finite _ _, infinite t => infinite t
  | finite s a, finite t b =>
    if a = 0 ∧ b = 0 then finite (s && t) 0
    else ofSignedUnits (signedUnits s a + signedUnits t b) 1

def mul : Binary64 → Binary64 → Binary64
  | nan, _ => nan
  | _, nan => nan
  | infinite s, infinite t => infinite (s != t)
  | infinite s, finite t b => if b = 0 then nan else infinite (s != t)
  | finite s a, infinite t => if a = 0 then nan else infinite (s != t)
  | finite s a, finite t b => ofUnits (s != t) (a * b) one

def truncate (negative : Bool) (units : Nat) : Int := signedUnits negative (units / one)

/-- What the integer part leaves of a finite number; it keeps the sign. -/
def fraction (negative : Bool) (units : Nat) : Binary64 := finite negative (units % one)

def isInteger : Binary64 → Bool
  | finite _ units => units % one == 0
  | _ => false

def compare? : Binary64 → Binary64 → Option Ordering
  | nan, _ => none
  | _, nan => none
  | infinite s, infinite t => some (compare t.toNat s.toNat)
  | infinite s, finite _ _ => some (if s then .lt else .gt)
  | finite _ _, infinite t => some (if t then .gt else .lt)
  | finite s a, finite t b => some (compare (signedUnits s a) (signedUnits t b))

def compareInt? (n : Int) : Binary64 → Option Ordering
  | nan => none
  | infinite s => some (if s then .gt else .lt)
  | finite s a => some (compare (n * one) (signedUnits s a))

def isZero : Binary64 → Bool
  | finite _ units => units == 0
  | _ => false

@[simp] theorem signedUnits_zero (s : Bool) : signedUnits s 0 = 0 := by cases s <;> rfl

@[simp] theorem add_nan (x : Binary64) : add x nan = nan := by cases x <;> rfl

@[simp] theorem nan_mul (x : Binary64) : mul nan x = nan := by cases x <;> rfl

@[simp] theorem compare?_nan (x : Binary64) : compare? nan x = none := by cases x <;> rfl

end Binary64
end Domotics
