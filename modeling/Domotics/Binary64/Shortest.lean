import Domotics.Binary64

/-!
The decimal forms of a number: the fewest digits that read back as the same number, and a fixed count
of significant digits. Both are found in exact integer arithmetic.
-/

namespace Domotics.Binary64

/-- A decimal numeral `0.d₁d₂… · 10 ^ point` with its digits as one number. -/
structure Decimal where
  digits : Nat
  count : Nat
  point : Int
deriving Repr

/-- The greatest power of ten that does not exceed `num / den`, searched upwards from `k`. -/
def tenPower (num den : Nat) : Nat → Int → Int
  | 0, k => k
  | fuel + 1, k =>
    let next := k + 1
    let fits :=
      if 0 ≤ next then den * Nat.pow 10 next.toNat ≤ num
      else den ≤ num * Nat.pow 10 (-next).toNat
    if fits then tenPower num den fuel next else k

def leadingPower (units : Nat) : Int :=
  -- the binary exponent gives a start that is at most two too small
  let estimate : Int := ((units.log2 : Int) - 1074) * 30103 / 100000 - 2
  tenPower units one 4 estimate

/-- The value of `units` counted in `10 ^ power`, as a quotient. -/
def scaled (units : Nat) (power : Int) : Nat × Nat :=
  if 0 ≤ power then (units, one * Nat.pow 10 power.toNat)
  else (units * Nat.pow 10 (-power).toNat, one)

def readsBack (units digits : Nat) (power : Int) : Bool :=
  ofDecimal false digits power == finite false units

/-- The better neighbour of a number among the numerals of a given count of digits, if one of them
reads back. Of two the nearer is taken, and the even one of two equally near. -/
def withDigits? (units : Nat) (leading : Int) (count : Nat) : Option Decimal :=
  let power := leading - (count - 1 : Nat)
  let (num, den) := scaled units power
  let below := num / den
  let candidates := [nearest num den, below, below + 1]
  (candidates.find? fun d => readsBack units d power).map fun d =>
    if d = Nat.pow 10 count then ⟨d / 10, count, leading + 2⟩ else ⟨d, count, leading + 1⟩

def shortestFrom (units : Nat) (leading : Int) : Nat → Nat → Decimal
  | 0, count =>
    let (num, den) := scaled units (leading - (count - 1 : Nat))
    ⟨nearest num den, count, leading + 1⟩
  | fuel + 1, count =>
    (withDigits? units leading count).getD (shortestFrom units leading fuel (count + 1))

/-- The fewest digits that read back as the number of `units`. Seventeen always do. -/
def shortest (units : Nat) : Decimal := shortestFrom units (leadingPower units) 17 1

def significant (count units : Nat) : Decimal :=
  if units = 0 then ⟨0, count, 1⟩
  else
    let leading := leadingPower units
    let (num, den) := scaled units (leading - (count - 1 : Nat))
    let d := nearest num den
    if d = Nat.pow 10 count then ⟨d / 10, count, leading + 2⟩ else ⟨d, count, leading + 1⟩

def Decimal.chars (d : Decimal) : List Char :=
  let cs := Nat.toDigits 10 d.digits
  List.replicate (d.count - cs.length) '0' ++ cs

def dropZeros (cs : List Char) : List Char := (cs.reverse.dropWhile (· = '0')).reverse

/-- How a numeral is laid out: the exponents written without an exponent part, whether a whole number
shows an empty fraction as a point with a zero, and whether a point may stand at the end. -/
structure Layout where
  leastPoint : Int := -3
  greatestPoint : Int
  keepPoint : Bool := false
  barePoint : Bool := false

def exponentText (e : Int) : List Char :=
  let digits := Nat.toDigits 10 e.natAbs
  'e' :: (if e < 0 then '-' else '+') :: (if digits.length < 2 then '0' :: digits else digits)

def Layout.emptyFraction (layout : Layout) : List Char :=
  if layout.keepPoint then ['.', '0'] else if layout.barePoint then ['.'] else []

def layOut (layout : Layout) (digits : List Char) (point : Int) : List Char :=
  if layout.leastPoint ≤ point ∧ point ≤ layout.greatestPoint then
    if point ≤ 0 then '0' :: '.' :: List.replicate (-point).toNat '0' ++ digits
    else
      let before := digits.take point.toNat
      let after := digits.drop point.toNat
      let before := before ++ List.replicate (point.toNat - digits.length) '0'
      if after = [] then before ++ layout.emptyFraction
      else before ++ '.' :: after
  else match digits with
    | [] => exponentText (point - 1)
    | d :: [] => d :: (if layout.barePoint then ['.'] else []) ++ exponentText (point - 1)
    | d :: rest => d :: '.' :: rest ++ exponentText (point - 1)

/-- A number on its own is written without an exponent between 10⁻⁴ and 10¹⁶ and shows its point. -/
def plainLayout : Layout := { greatestPoint := 16, keepPoint := true }

/-- A measurement is written without an exponent between 10⁻⁴ and 10⁶ and shows no empty fraction. -/
def measureLayout : Layout := { greatestPoint := 6 }

def signed (negative : Bool) (cs : List Char) : String :=
  String.ofList (if negative then '-' :: cs else cs)

def shortestChars (layout : Layout) (units : Nat) : List Char :=
  if units = 0 then layOut layout ['0'] 1
  else
    let d := shortest units
    layOut layout (match dropZeros d.chars with | [] => ['0'] | cs => cs) d.point

def text : Binary64 → String
  | nan => "nan"
  | infinite s => signed s "inf".toList
  | finite s units => signed s (shortestChars plainLayout units)

/-- The number to six significant digits. -/
def measureText : Binary64 → String
  | nan => "nan"
  | infinite s => signed s "inf".toList
  | finite s 0 => signed s ['0']
  | finite s units =>
    let d := significant 6 units
    signed s (layOut measureLayout (dropZeros d.chars) d.point)

end Domotics.Binary64
