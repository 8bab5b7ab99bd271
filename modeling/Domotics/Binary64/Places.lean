import Domotics.Binary64.Shortest

/-!
Decimal texts of a chosen exactness: a fixed number of places after the point, or a fixed number of
significant digits. The exact value is rounded once, and a tie goes to the even neighbour.
-/

namespace Domotics.Binary64

def fixedChars (places : Nat) (barePoint : Bool) (units : Nat) : List Char :=
  let digits := Nat.toDigits 10 (nearest (units * Nat.pow 10 places) one)
  let digits := List.replicate (places + 1 - digits.length) '0' ++ digits
  let whole := digits.take (digits.length - places)
  match digits.drop (digits.length - places) with
  | [] => whole ++ (if barePoint then ['.'] else [])
  | fraction => whole ++ '.' :: fraction

def scientificChars (places : Nat) (barePoint : Bool) (units : Nat) : List Char :=
  let d := significant (places + 1) units
  layOut { leastPoint := 1, greatestPoint := 0, barePoint } d.chars d.point

/-- To a number of significant digits, of which zeros at the end are dropped unless a point may stand
at the end. -/
def generalChars (count : Nat) (layout : Layout) (units : Nat) : List Char :=
  let d := significant count units
  let digits := if layout.barePoint then d.chars else dropZeros d.chars
  layOut layout (if digits = [] then ['0'] else digits) d.point

end Domotics.Binary64
