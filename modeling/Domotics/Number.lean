import Domotics.Binary64.Shortest

/-!
Numbers as configurations write them: exact integers of any size, and binary floating-point numbers.
Comparison between the two kinds is exact.
-/

namespace Domotics

/-- An exact integer or a floating-point number. -/
inductive Number where
  | int (n : Int)
  | real (x : Binary64)
deriving DecidableEq, Inhabited, Repr

namespace Number

def compare? : Number → Number → Option Ordering
  | int m, int n => some (compare m n)
  | int m, real y => Binary64.compareInt? m y
  | real x, int n => (Binary64.compareInt? n x).map Ordering.swap
  | real x, real y => Binary64.compare? x y

/-- Numerical equality; a value that is not a number differs from everything. -/
def equals (x y : Number) : Bool := x.compare? y == some .eq

/-- Numerical equality, where the value that is not a number agrees with itself. -/
def agrees (x y : Number) : Bool :=
  (x == real .nan && y == real .nan) || x.equals y

def isZero : Number → Bool
  | int n => n == 0
  | real x => x.isZero

def isNegative (x : Number) : Bool := x.compare? (int 0) == some .lt

/-- The nearest floating-point number; none for an integer beyond the finite range. -/
def toReal? : Number → Option Binary64
  | real x => some x
  | int n => match Binary64.ofInt n with
    | .infinite _ => none
    | x => some x

def next : Number → Number
  | int n => int (n + 1)
  | real x => real (x.add (Binary64.ofInt 1))

def text : Number → String
  | int n => toString n
  | real x => x.text

@[simp] theorem compare?_int (m n : Int) : (int m).compare? (int n) = some (compare m n) := rfl

@[simp] theorem equals_int (m n : Int) : (int m).equals (int n) = (m == n) := by
  rw [Bool.eq_iff_iff]
  simp [equals]

end Number
end Domotics
