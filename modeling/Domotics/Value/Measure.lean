import Domotics.Binary64
import Domotics.Text

/-!
Measures in a text: a decimal numeral, optionally followed by a unit in one word. The words that end
an ordinal (`2nd`) are no units.
-/

namespace Domotics

open Character

/-- A number with a unit. The unit is empty when none is written. -/
structure Measure where
  amount : Binary64
  unit : List Char
deriving DecidableEq, Repr

namespace Measure

def ordinalEndings : List (List Char) :=
  [['s', 't'], ['n', 'd'], ['r', 'd'], ['t', 'h']]

/-- A unit is one word that does not begin with a digit and ends no ordinal. -/
def isUnit (cs : List Char) : Bool :=
  match cs with
  | [] => true
  | c :: _ => !isDecimalDigit c && cs.all (!isBlank ·) && !ordinalEndings.contains cs

def spanDigits (cs : List Char) : List Char × List Char :=
  (cs.takeWhile isDecimalDigit, cs.dropWhile isDecimalDigit)

def amountOf (negative : Bool) (whole places : List Char) : Binary64 :=
  Binary64.ofDecimal negative (Text.ofDigits ((whole ++ places).filterMap decimalDigit?))
    (-(places.length : Int))

def withUnit? (amount : Binary64) (rest : List Char) : Option Measure :=
  let unit := rest.dropWhile isBlank
  if isUnit unit then some ⟨amount, unit⟩ else none

/-- Reads a text without blanks at its ends as a measure. Decimal places belong to the number if that
leaves a unit; otherwise the point begins the unit. -/
def read? (cs : List Char) : Option Measure :=
  let (negative, cs) := match cs with
    | '-' :: rest => (true, rest)
    | _ => (false, cs)
  let (whole, rest) := spanDigits cs
  if whole = [] then none
  else
    let wholeOnly := withUnit? (amountOf negative whole []) rest
    match rest with
    | '.' :: more =>
      let (places, rest) := spanDigits more
      if places = [] then wholeOnly
      else match withUnit? (amountOf negative whole places) rest with
        | some m => some m
        | none => wholeOnly
    | _ => wholeOnly

theorem isUnit_nil : isUnit [] = true := rfl

end Measure
end Domotics
