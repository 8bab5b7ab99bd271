import Domotics.Time.Duration

/-!
Times of day as a clock shows them, with the offset from universal time when one is given.
-/

namespace Domotics

/-- A time of day. The offset is in microseconds. -/
structure Clock where
  hour : Nat
  minute : Nat
  second : Nat := 0
  micro : Nat := 0
  offset : Option Int := none
deriving DecidableEq, Inhabited, Repr

namespace Clock

def sinceMidnight (c : Clock) : Nat :=
  ((c.hour * 60 + c.minute) * 60 + c.second) * Duration.perSecond + c.micro

def offsetText (offset : Int) : String :=
  let n := offset.natAbs
  let seconds := n / Duration.perSecond
  let sign := if offset < 0 then "-" else "+"
  if n % (60 * Duration.perSecond) = 0 then
    sign ++ Text.padded 2 (seconds / 3600) ++ ":" ++ Text.padded 2 (seconds / 60 % 60)
  else sign ++ Duration.clockText 2 n

def text (c : Clock) : String :=
  Duration.clockText 2 c.sinceMidnight ++ (match c.offset with
    | some offset => offsetText offset
    | none => "")

def shortText (c : Clock) : String := Text.padded 2 c.hour ++ ":" ++ Text.padded 2 c.minute

def inRange (c : Clock) : Bool :=
  c.hour < 24 && c.minute < 60 && c.second < 60 && c.micro < Duration.perSecond

end Clock
end Domotics
