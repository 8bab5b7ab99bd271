import Domotics.Character.Digit
import Domotics.Document.Kind
import Domotics.Fault
import Domotics.Text

/-!
Layouts: short texts that say how a value is padded, cut and grouped. A layout has, in this order and
all optional, a fill character with an alignment, a sign rule, marks for zero and for an alternate
form, a width, a group separator, a precision and a letter for the form of a number.
-/

namespace Domotics

/-- Where a value stands within its width. The inner alignment pads between a sign and the digits. -/
inductive Alignment where
  | left | right | center | inner
deriving DecidableEq, Inhabited, Repr

def Alignment.ofMark? : Char → Option Alignment
  | '<' => some left
  | '>' => some right
  | '^' => some center
  | '=' => some inner
  | _ => none

/-- How a value is laid out. A layout without a letter of its own has that of the kind of the value;
the null character stands for none. -/
structure Layout where
  fill : Char := ' '
  align : Alignment
  sign : Option Char := none
  positiveZero : Bool := false
  alternate : Bool := false
  width : Nat := 0
  separator : Option Char := none
  precision : Option Nat := none
  letter : Char
deriving Inhabited, Repr

namespace Layout

open Character

abbrev malformed {α : Type} (reason : String) : Result α := Result.invalid (.template reason)

def maxNumber : Nat := Nat.pow 2 63 - 1

def readNumber (digits : List Char) : Result Nat :=
  let n := Text.ofDigits (digits.filterMap decimalDigit?)
  if maxNumber < n then malformed "Too many decimal digits in format string" else .ok n

def readAlign : List Char → Option Char × Option Alignment × List Char
  | [] => (none, none, [])
  | first :: rest =>
    match rest.head?.bind Alignment.ofMark?, Alignment.ofMark? first with
    | some align, _ => (some first, some align, rest.tail)
    | none, some align => (none, some align, rest)
    | none, none => (none, none, first :: rest)

def readFlag (flags : List Char) : List Char → Option Char × List Char
  | c :: rest => if flags.contains c then (some c, rest) else (none, c :: rest)
  | [] => (none, [])

def shownChar (c : Char) : String :=
  if 32 < c.toNat ∧ c.toNat < 128 then String.singleton c
  else "\\x" ++ String.ofList (Nat.toDigits 16 c.toNat)

def unknownLetter {α : Type} (letter : Char) (kind : Kind) : Result α :=
  malformed ("Unknown format code '" ++ shownChar letter ++ "' for object of type '" ++ kind.name
    ++ "'")

/-- Letters of decimal forms go with both group separators, letters of other bases with one. -/
def checkSeparator (separator : Option Char) (letter : Char) : Result Unit :=
  match separator with
  | none => .ok ()
  | some c =>
    if "defgEG%F\x00".toList.contains letter ∨ c = '_' ∧ "boxX".toList.contains letter then .ok ()
    else
      malformed ("Cannot specify '" ++ String.singleton c ++ "' with '" ++ shownChar letter ++ "'.")

/-- Reads a layout for a kind of values with its usual alignment and letter. A zero in front of the
width pads with zeros; numbers are then padded after their sign. -/
def read (kind : Kind) (align : Alignment) (letter : Char) (whole : List Char) : Result Layout := do
  let (fill, mark, rest) := readAlign whole
  let (sign, rest) := readFlag ['+', '-', ' '] rest
  let (positiveZero, rest) := readFlag ['z'] rest
  let (alternate, rest) := readFlag ['#'] rest
  let (zeroFill, rest) := if fill.isNone then readFlag ['0'] rest else (none, rest)
  let usual := if zeroFill.isSome ∧ align = .right then .inner else align
  let digits := rest.takeWhile isDecimalDigit
  let width ← readNumber digits
  let rest := rest.drop digits.length
  let (comma, rest) := readFlag [','] rest
  let (underscore, rest) := readFlag ['_'] rest
  if underscore.isSome && (comma.isSome || rest.head? = some ',') then
    malformed "Cannot specify both ',' and '_'."
  let (point, rest) := readFlag ['.'] rest
  let places := if point.isSome then rest.takeWhile isDecimalDigit else []
  let precision ← readNumber places
  if point.isSome && places = [] then malformed "Format specifier missing precision"
  let letter ← match rest.drop places.length with
    | [] => pure letter
    | [c] => pure c
    | _ => malformed ("Invalid format specifier '" ++ String.ofList whole
        ++ "' for object of type '" ++ kind.name ++ "'")
  let separator := comma.or underscore
  checkSeparator separator letter
  return {
    fill := (fill.or zeroFill).getD ' '
    align := mark.getD usual
    sign, positiveZero := positiveZero.isSome, alternate := alternate.isSome, width, separator
    precision := if point.isSome then some precision else none
    letter }

def place (l : Layout) (head body : List Char) : List Char :=
  let missing := l.width - (head.length + body.length)
  let pad := List.replicate missing l.fill
  match l.align with
  | .left => head ++ body ++ pad
  | .right => pad ++ head ++ body
  | .inner => head ++ pad ++ body
  | .center => pad.take (missing / 2) ++ head ++ body ++ pad.drop (missing / 2)

def text (l : Layout) (cs : List Char) : Result (List Char) := do
  if l.letter ≠ 's' then unknownLetter l.letter .text
  if l.sign = some ' ' then malformed "Space not allowed in string format specifier"
  if l.sign.isSome then malformed "Sign not allowed in string format specifier"
  if l.positiveZero then
    malformed "Negative zero coercion (z) not allowed in string format specifier"
  if l.alternate then malformed "Alternate form (#) not allowed in string format specifier"
  if l.align = .inner then malformed "'=' alignment not allowed in string format specifier"
  return l.place [] (match l.precision with
    | some n => cs.take n
    | none => cs)

theorem length_place (l : Layout) (head body : List Char) :
    (l.place head body).length = max l.width (head.length + body.length) := by
  cases h : l.align <;> simp [place, h] <;> omega

end Layout
end Domotics
