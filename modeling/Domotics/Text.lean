import Domotics.Character.Blank
import Domotics.Character.Case
import Domotics.Character.Digit

/-!
The operations on texts that configuration values need: trimming, changing case, cutting at a
separator and reading decimal numerals.
-/

namespace Domotics.Text

open Character

def trimChars (cs : List Char) : List Char :=
  ((cs.dropWhile isBlank).reverse.dropWhile isBlank).reverse

def trim (s : String) : String := String.ofList (trimChars s.toList)

def upper (s : String) : String := String.ofList (upperCase s.toList)

def lower (s : String) : String := String.ofList (lowerCase s.toList)

def splitChars (sep : Char) : List Char → List (List Char)
  | [] => [[]]
  | c :: rest =>
    if c = sep then [] :: splitChars sep rest
    else match splitChars sep rest with
      | [] => [[c]]
      | part :: parts => (c :: part) :: parts

/-- Cuts a text at every occurrence of a character, so that there is always at least one part. -/
def split (sep : Char) (s : String) : List String := (splitChars sep s.toList).map String.ofList

def cutChars (sep : List Char) : List Char → Option (List Char × List Char)
  | [] => if sep = [] then some ([], []) else none
  | c :: rest =>
    if sep.isPrefixOf (c :: rest) then some ([], (c :: rest).drop sep.length)
    else (cutChars sep rest).map fun (first, last) => (c :: first, last)

def cutLast (sep : Char) (s : String) : Option (String × String) :=
  match cutChars [sep] s.toList.reverse with
  | some (last, first) => some (String.ofList first.reverse, String.ofList last.reverse)
  | none => none

def ofDigits (digits : List Nat) : Nat := digits.foldl (fun n d => 10 * n + d) 0

/-- The value of a numeral in decimal digits of any script; no sign and no blanks. -/
def numeral? (cs : List Char) : Option Nat :=
  if cs = [] then none else (cs.mapM decimalDigit?).map ofDigits

def padded (width n : Nat) : String :=
  let digits := Nat.toDigits 10 n
  String.ofList (List.replicate (width - digits.length) '0' ++ digits)

@[simp] theorem splitChars_nil (sep : Char) : splitChars sep [] = [[]] := rfl

theorem splitChars_ne_nil (sep : Char) (cs : List Char) : splitChars sep cs ≠ [] := by
  cases cs with
  | nil => simp
  | cons c rest =>
    by_cases h : c = sep
    · simp [splitChars, h]
    · simp only [splitChars, h, if_false]
      cases splitChars sep rest <;> simp

@[simp] theorem ofDigits_nil : ofDigits [] = 0 := rfl

end Domotics.Text
