import Domotics.Text

/-!
Calendar days of the Gregorian calendar, numbered from Monday, the first of January of the year 1,
which is day 0. The calendar ends with the year 9999.
-/

namespace Domotics

/-- The days of the week; Monday is 0. -/
abbrev Weekday := Fin 7

abbrev Day := Nat

namespace Day

def count : Nat := 3652059

def weekday (d : Day) : Weekday := ⟨d % 7, Nat.mod_lt d (by decide)⟩

def isLeap (year : Nat) : Bool := year % 4 == 0 && (year % 100 != 0 || year % 400 == 0)

def monthLengths (year : Nat) : List Nat :=
  [31, if isLeap year then 29 else 28, 31, 30, 31, 30, 31, 31, 30, 31, 30, 31]

def beforeYear (year : Nat) : Nat :=
  let y := year - 1
  365 * y + y / 4 - y / 100 + y / 400

def ofDate? (year month dayOfMonth : Nat) : Option Day :=
  if 1 ≤ year ∧ year ≤ 9999 ∧ 1 ≤ month then
    match (monthLengths year)[month - 1]? with
    | some length =>
      if 1 ≤ dayOfMonth ∧ dayOfMonth ≤ length then
        some (beforeYear year + ((monthLengths year).take (month - 1)).foldr (· + ·) 0 +
          (dayOfMonth - 1))
      else none
    | none => none
  else none

/-- The month and the day of the month of the `n`-th day after the beginning of a month. -/
def inMonths (month n : Nat) : List Nat → Nat × Nat
  | [] => (month, n + 1)
  | length :: rest => if n < length then (month, n + 1) else inMonths (month + 1) (n - length) rest

def toDate (d : Day) : Nat × Nat × Nat :=
  let n400 := d / 146097
  let r := d % 146097
  let n100 := min (r / 36524) 3
  let r := r - n100 * 36524
  let n4 := r / 1461
  let r := r - n4 * 1461
  let n1 := min (r / 365) 3
  let year := 400 * n400 + 100 * n100 + 4 * n4 + n1 + 1
  (year, inMonths 1 (r - n1 * 365) (monthLengths year))

def text (d : Day) : String :=
  let (year, month, dayOfMonth) := d.toDate
  Text.padded 4 year ++ "-" ++ Text.padded 2 month ++ "-" ++ Text.padded 2 dayOfMonth

@[simp] theorem weekday_val (d : Day) : (d.weekday : Nat) = d % 7 := rfl

end Day
end Domotics
