import Domotics.Binary64.Places
import Domotics.Number
import Domotics.Text.Layout

/-!
Numbers under a layout: integers in a base or as a character, floating-point numbers with a fixed
exactness, both with their digits in groups if the layout asks for it.
-/

namespace Domotics

namespace Layout

/-- Digits, the last first, with a separator after every `size` of them. Zeros are added up to a
least length. Each round takes up a digit or a place, which bounds their number. -/
def groups (size : Nat) (separator : Char) : Nat → List Char → Nat → List Char
  | 0, _, _ => []
  | rounds + 1, digits, least =>
    let n := min size (max 1 (max digits.length least))
    let group := digits.take n ++ List.replicate (n - digits.length) '0'
    let digits := digits.drop n
    let least := least - n
    if digits = [] ∧ least = 0 then group
    else group ++ separator :: groups size separator rounds digits (least - 1)

def grouped (l : Layout) (size least : Nat) (digits : List Char) : List Char :=
  match digits, l.separator with
  | [], _ => []
  | digits, none => List.replicate (least - digits.length) '0' ++ digits
  | digits, some c => (groups size c (digits.length + least + 1) digits.reverse least).reverse

def shownSign (l : Layout) (negative : Bool) : List Char :=
  if negative then ['-']
  else match l.sign with
    | some '+' => ['+']
    | some ' ' => [' ']
    | _ => []

/-- A number from its sign, a mark of its base, its digits and what follows them. Zeros that fill the
width join the digits and are grouped with them. -/
def number (l : Layout) (negative : Bool) (mark : List Char) (size : Nat)
    (digits rest : List Char) : List Char :=
  let head := l.shownSign negative ++ mark
  let least :=
    if l.fill = '0' ∧ l.align = .inner then l.width - (head.length + rest.length) else 0
  l.place head (l.grouped size least digits ++ rest)

end Layout

namespace Number

def baseOf : Char → Nat × List Char
  | 'b' => (2, ['0', 'b'])
  | 'o' => (8, ['0', 'o'])
  | 'x' => (16, ['0', 'x'])
  | 'X' => (16, ['0', 'X'])
  | _ => (10, [])

def presentCharacter (l : Layout) (n : Int) : Result (List Char) := do
  if l.sign.isSome then Layout.malformed "Sign not allowed with integer format specifier 'c'"
  if l.alternate then
    Layout.malformed "Alternate form (#) not allowed with integer format specifier 'c'"
  if n < -(Nat.pow 2 63 : Int) ∨ (Nat.pow 2 63 : Int) ≤ n then Result.misuse .wordRange
  if n < 0 ∨ 0x110000 ≤ n then Result.misuse .characterRange
  return l.number false [] 3 [] [Char.ofNat n.toNat]

def presentDigits (l : Layout) (n : Int) : List Char :=
  let (base, mark) := baseOf l.letter
  let digits := Nat.toDigits base n.natAbs
  let digits := if l.letter = 'X' then digits.map Char.toUpper else digits
  l.number (n < 0) (if l.alternate then mark else []) (if base = 10 then 3 else 4) digits []

/-- The text of a finite number without its sign, in the form of the layout's letter: places after
the point, an exponent, or significant digits. Without a letter and a precision it is the shortest
that reads back. -/
def finiteChars (l : Layout) (units : Nat) : List Char :=
  let places := l.precision.getD 6
  match l.letter.toLower with
  | 'f' | '%' => Binary64.fixedChars places l.alternate units
  | 'e' => Binary64.scientificChars places l.alternate units
  | 'g' | 'n' =>
    let count := max 1 places
    Binary64.generalChars count { greatestPoint := count, barePoint := l.alternate } units
  | _ =>
    match l.precision with
    | none => Binary64.shortestChars { Binary64.plainLayout with barePoint := l.alternate } units
    | some places =>
      let count := max 1 places
      Binary64.generalChars count
        { greatestPoint := (count : Int) - 1, keepPoint := true, barePoint := l.alternate } units

def showsZero (cs : List Char) : Bool :=
  (cs.takeWhile (· != 'e')).all fun c => c == '0' || c == '.'

def presentReal (l : Layout) (x : Binary64) : Result (List Char) := do
  if l.precision.any (Nat.pow 2 31 - 1 < ·) then Layout.malformed "precision too big"
  let x := if l.letter = '%' then x.mul (.ofInt 100) else x
  let (negative, cs) := match x with
    | .nan => (false, "nan".toList)
    | .infinite s => (s, "inf".toList)
    | .finite s units =>
      let cs := finiteChars l units
      (s && !(l.positiveZero && showsZero cs), cs)
  let cs := if l.letter = '%' then cs ++ ['%'] else cs
  let cs := if l.letter.isUpper then cs.map Char.toUpper else cs
  return l.number negative [] 3 (cs.takeWhile Char.isDigit) (cs.dropWhile Char.isDigit)

/-- An integer of a kind. Letters of floating-point forms turn it into the nearest floating-point
number. -/
def presentInt (kind : Kind) (layout : List Char) (n : Int) : Result (List Char) := do
  let l ← Layout.read kind .right 'd' layout
  if "bcdoxXn".toList.contains l.letter then
    if l.precision.isSome then Layout.malformed "Precision not allowed in integer format specifier"
    if l.positiveZero then
      Layout.malformed "Negative zero coercion (z) not allowed in integer format specifier"
    if l.letter = 'c' then presentCharacter l n else return presentDigits l n
  else if "eEfFgG%".toList.contains l.letter then
    match (int n).toReal? with
    | some x => presentReal l x
    | none => Result.misuse .realRange
  else Layout.unknownLetter l.letter kind

def present (layout : List Char) : Number → Result (List Char)
  | int n => presentInt .int layout n
  | real x => do
    let l ← Layout.read .real .right '\x00' layout
    if "\x00eEfFgGn%".toList.contains l.letter then presentReal l x
    else Layout.unknownLetter l.letter .real

end Number
end Domotics
