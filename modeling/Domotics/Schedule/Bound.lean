import Domotics.Time.ClockReader

/-!
Bounds of a span of the day: a time of day or an anchor in the course of the sun, moved by a signed
offset. Midnight is the beginning of the day when it opens a span, and its end when it closes one.
-/

namespace Domotics

inductive Anchor where
  | sunrise | sunset | noon | midnight
deriving DecidableEq, Inhabited, Repr

def Anchor.name : Anchor → String
  | sunrise => "SUNRISE"
  | sunset => "SUNSET"
  | noon => "NOON"
  | midnight => "MIDNIGHT"

def Anchor.ofName? (s : String) : Option Anchor :=
  [Anchor.sunrise, .sunset, .noon, .midnight].find? (·.name == s)

inductive Base where
  | clock (c : Clock)
  | anchor (a : Anchor)
deriving DecidableEq, Inhabited, Repr

structure Bound where
  base : Base
  offset : Duration := .zero
deriving DecidableEq, Inhabited, Repr

namespace Bound

def midnight : Bound := ⟨.anchor .midnight, .zero⟩

def atClock (c : Clock) : Bound := ⟨.clock c, .zero⟩

def isSolar (b : Bound) : Bool :=
  match b.base with
  | .anchor .midnight => false
  | .anchor _ => true
  | .clock _ => false

/-- The time since the day began of a bound that is not solar. A clock counts in whole seconds. -/
def fixed (b : Bound) (isEnd : Bool) : Option Duration :=
  match b.base with
  | .clock c => some ((Duration.ofSeconds ((c.hour * 60 + c.minute) * 60 + c.second)).plus b.offset)
  | .anchor .midnight => some ((if isEnd then Duration.day else Duration.zero).plus b.offset)
  | .anchor _ => none

def text (b : Bound) : String :=
  let base := match b.base with
    | .clock c => c.shortText
    | .anchor a => a.name
  if b.offset.micros = 0 then base
  else base ++ (if b.offset.micros < 0 then "-" else "+") ++ Duration.text ⟨b.offset.micros.natAbs⟩

@[simp] theorem isSolar_midnight : midnight.isSolar = false := rfl

theorem fixed_eq_none_iff (b : Bound) (isEnd : Bool) : b.fixed isEnd = none ↔ b.isSolar = true := by
  obtain ⟨base, offset⟩ := b
  rcases base with c | a
  · simp [fixed, isSolar]
  · cases a <;> simp [fixed, isSolar]

end Bound
end Domotics
