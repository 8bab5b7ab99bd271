import Domotics.Time.DurationReader

/-!
Reading bounds: times of day in hundreds (`1530`), on a clock (`15:30`) or at an anchor with an
optional offset (`SUNRISE+30m`). The end of the day is `2400`, `24:00` or `MIDNIGHT`.
-/

namespace Domotics.Bound

open Character

def make (clock : Option Clock) (anchor : Option Anchor) (offset : Duration) : Result Bound :=
  match clock, anchor with
  | some c, none => .ok ⟨.clock c, offset⟩
  | none, some a => .ok ⟨.anchor a, offset⟩
  | _, _ => Result.schedule .baseMissing

def fixedOffset (b : Bound) (isEnd : Bool) : Result (Option Duration) :=
  match b.fixed isEnd with
  | none => .ok none
  | some d => d.check.map some

/-- A time of day as hours in hundreds and minutes. -/
def ofMilitary (value : Int) : Result Bound :=
  let hours := value / 100
  let minutes := value % 100
  if hours = 24 ∧ minutes = 0 then .ok midnight
  else if 0 ≤ hours ∧ hours < 24 ∧ minutes < 60 then
    .ok (atClock { hour := hours.toNat, minute := minutes.toNat })
  else Result.schedule (.militaryTime value)

/-- What follows an anchor: nothing, or a sign and an offset in one word. -/
def readOffset? (cs : List Char) : Option (Option (Bool × List Char)) :=
  match cs.dropWhile isBlank with
  | [] => some none
  | sign :: rest =>
    let word := rest.dropWhile isBlank
    if (sign = '+' ∨ sign = '-') ∧ word ≠ [] ∧ word.all (!isBlank ·) then
      some (some (sign = '-', word))
    else none

def readAnchor? (cs : List Char) : Option (Anchor × Option (Bool × List Char)) :=
  [Anchor.sunrise, .sunset, .noon, .midnight].findSome? fun a =>
    let name := a.name.toList
    if name.isPrefixOf cs then (readOffset? (cs.drop name.length)).map (a, ·) else none

/-- Reads the offset of an anchor in the bound `raw`. A mistake in the duration is a mistake in the
bound; a duration that cannot be represented is not. -/
def offsetOf (raw : Document) (negative : Bool) (word : List Char) : Result Duration :=
  match Duration.parse (.text (String.ofList word)) with
  | .ok d => if negative then d.opposite else .ok d
  | .error (.invalid _) => Result.schedule (.offset raw)
  | .error fault => .error fault

def parse (raw : Document) : Result Bound :=
  match raw with
  | .number (.int n) => ofMilitary n
  | _ =>
    let cs := Text.trimChars raw.asText.toList
    match readAnchor? (upperCase cs) with
    | some (a, none) => .ok ⟨.anchor a, .zero⟩
    | some (a, some (negative, word)) => do
      let offset ← offsetOf raw negative word
      return ⟨.anchor a, offset⟩
    | none =>
      if Text.isDigits cs then do ofMilitary (← Text.readInteger cs)
      else if cs = "24:00".toList ∨ cs = "24:00:00".toList then .ok midnight
      else match Clock.read? (String.ofList cs) with
        | some c => .ok (atClock c)
        | none => Result.schedule (.time raw)

@[simp] theorem parse_int (n : Int) : parse (.number (.int n)) = ofMilitary n := rfl

end Domotics.Bound
