import Domotics.Fault

/-!
Reading durations: a number of seconds, a number with a unit (`30m`), or hours, minutes and seconds
(`0:30`, `0:30:00`).
-/

namespace Domotics

open Character

namespace Text

def maxDigits : Nat := 4300

/-- Reads a text of digits as an integer. Digit marks make no numeral. -/
def readInteger (cs : List Char) : Result Nat :=
  let count := (cs.takeWhile isDecimalDigit).length
  if maxDigits < count then Result.invalid (.integerLength count)
  else match numeral? cs with
    | some n => .ok n
    | none => Result.invalid (.integer (String.ofList cs))

def isDigits (cs : List Char) : Bool := !cs.isEmpty && cs.all isDigit

end Text

namespace Duration

def check (d : Duration) : Result Duration :=
  if d.Representable then .ok d else Result.misuse (.durationRange d.wholeDays)

def ofReal (factor : Nat) : Binary64 → Result Duration
  | .nan => Result.invalid .notANumber
  | .infinite _ => Result.misuse .infiniteReal
  | .finite negative units => check ⟨microsOfReal factor negative units⟩

def ofNumber : Number → Result Duration
  | .int n => check (ofSeconds n)
  | .real x => ofReal perSecond x

def unitMicros? (name : List Char) : Option Nat :=
  if name = ['s'] ∨ name = ['s', 'e', 'c'] then some perSecond
  else if name = ['m'] ∨ name = ['m', 'i', 'n'] then some (60 * perSecond)
  else if name = ['h'] then some (3600 * perSecond)
  else if name = ['d'] then some perDay
  else none

def readWithUnit? (cs : List Char) : Option (Binary64 × Nat) :=
  let whole := cs.takeWhile isDecimalDigit
  let rest := cs.dropWhile isDecimalDigit
  let (places, rest) := match rest with
    | '.' :: more => (more.takeWhile isDecimalDigit, more.dropWhile isDecimalDigit)
    | _ => ([], rest)
  let pointed := (cs.dropWhile isDecimalDigit).head? = some '.'
  if whole = [] ∨ pointed ∧ places = [] then none
  else
    (unitMicros? (rest.dropWhile isBlank)).map fun factor =>
      (Binary64.ofDecimal false (Text.ofDigits ((whole ++ places).filterMap decimalDigit?))
        (-(places.length : Int)), factor)

def ofParts (hours minutes seconds : Nat) : Result Duration :=
  check (ofSeconds (((hours * 60 + minutes) * 60 + seconds : Nat) : Int))

def parse (raw : Document) : Result Duration :=
  match raw with
  | .number x => ofNumber x
  | _ =>
    let cs := lowerCase (Text.trimChars raw.asText.toList)
    match readWithUnit? cs with
    | some (amount, factor) => ofReal factor amount
    | none =>
      let parts := Text.splitChars ':' cs
      if parts.all Text.isDigits then
        match parts with
        | [h, m] => do ofParts (← Text.readInteger h) (← Text.readInteger m) 0
        | [h, m, s] => do
          ofParts (← Text.readInteger h) (← Text.readInteger m) (← Text.readInteger s)
        | _ => Result.invalid (.duration raw)
      else Result.invalid (.duration raw)

def add (a b : Duration) : Result Duration := check (a.plus b)

def opposite (a : Duration) : Result Duration := check a.negate

theorem check_eq_ok_iff (d e : Duration) : check d = .ok e ↔ d = e ∧ d.Representable := by
  unfold check
  split <;> simp_all

end Duration

namespace Moment

def shift (m : Moment) (d : Duration) : Result Moment :=
  match m.shift? d with
  | some m => .ok m
  | none => Result.misuse .dateRange

def order (a b : Moment) : Result Ordering :=
  match a.compare? b with
  | some o => .ok o
  | none => Result.misuse (.mixedOffsets false)

def since (a b : Moment) : Result Duration :=
  match a.since? b with
  | some d => .ok d
  | none => Result.misuse (.mixedOffsets true)

end Moment
end Domotics
