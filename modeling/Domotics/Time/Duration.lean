import Domotics.Binary64
import Domotics.Text

/-!
Durations: signed lengths of time in whole microseconds. A duration is representable while its whole
days, rounded down, have at most nine digits.
-/

namespace Domotics

/-- A signed number of microseconds. -/
structure Duration where
  micros : Int
deriving DecidableEq, Inhabited, Repr

namespace Duration

def perSecond : Nat := 1000000

def perDay : Nat := 86400 * perSecond

def maxDays : Nat := 999999999

def zero : Duration := ⟨0⟩

def day : Duration := ⟨perDay⟩

def wholeDays (d : Duration) : Int := d.micros / perDay

def ofSeconds (n : Int) : Duration := ⟨n * perSecond⟩

def Representable (d : Duration) : Prop := -maxDays ≤ d.wholeDays ∧ d.wholeDays ≤ maxDays

instance (d : Duration) : Decidable d.Representable := by unfold Representable; infer_instance

instance : LE Duration := ⟨fun a b => a.micros ≤ b.micros⟩
instance : LT Duration := ⟨fun a b => a.micros < b.micros⟩
instance (a b : Duration) : Decidable (a ≤ b) := inferInstanceAs (Decidable (a.micros ≤ b.micros))
instance (a b : Duration) : Decidable (a < b) := inferInstanceAs (Decidable (a.micros < b.micros))

def negate (d : Duration) : Duration := ⟨-d.micros⟩

def plus (a b : Duration) : Duration := ⟨a.micros + b.micros⟩

def minus (a b : Duration) : Duration := ⟨a.micros - b.micros⟩

/-- Whole microseconds and a floating-point rest of them, rounded to the nearest; a tie goes to the even
number. A rest that is not finite does not count. -/
def roundMicros (whole : Int) : Binary64 → Int
  | .finite s r =>
    let total := whole * Binary64.one + Binary64.signedUnits s r
    let rounded := Binary64.nearest total.natAbs Binary64.one
    if total < 0 then -rounded else rounded
  | _ => whole

/-- The microseconds nearest to a finite floating-point number of units of `factor` microseconds. The
whole units are taken exactly; the rest is multiplied in floating point. -/
def microsOfReal (factor : Nat) (negative : Bool) (units : Nat) : Int :=
  roundMicros (Binary64.truncate negative units * factor)
    ((Binary64.fraction negative units).mul (Binary64.ofInt factor))

def clockText (hourWidth micros : Nat) : String :=
  let seconds := micros / perSecond
  let rest := micros % perSecond
  Text.padded hourWidth (seconds / 3600) ++ ":" ++ Text.padded 2 (seconds / 60 % 60) ++ ":"
    ++ Text.padded 2 (seconds % 60) ++ (if rest = 0 then "" else "." ++ Text.padded 6 rest)

/-- Whole days rounded down, when there are any, and the time that remains. -/
def text (d : Duration) : String :=
  let days := d.wholeDays
  let clock := clockText 1 (d.micros % perDay).toNat
  if days = 0 then clock
  else toString days ++ (if days.natAbs = 1 then " day, " else " days, ") ++ clock

@[simp] theorem plus_micros (a b : Duration) : (a.plus b).micros = a.micros + b.micros := rfl

@[simp] theorem minus_micros (a b : Duration) : (a.minus b).micros = a.micros - b.micros := rfl

@[simp] theorem negate_micros (a : Duration) : a.negate.micros = -a.micros := rfl

theorem le_def (a b : Duration) : a ≤ b ↔ a.micros ≤ b.micros := Iff.rfl

theorem lt_def (a b : Duration) : a < b ↔ a.micros < b.micros := Iff.rfl

end Duration
end Domotics
