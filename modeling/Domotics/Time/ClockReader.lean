import Domotics.Time.Clock

/-!
Reading a time of day from its ISO 8601 form, in the basic (`0715`) or the extended (`07:15`) format,
with an optional fraction and an optional offset. The text is read byte by byte.

The format is lenient in three ways: a fraction may follow any part, digits of a fraction after the
sixth are skipped, and what stands between a complete time and its offset is ignored.
-/

namespace Domotics.Clock

def endMark : Char := Char.ofNat 0

def asciiDigit? (c : Char) : Option Nat :=
  if '0' ≤ c ∧ c ≤ '9' then some (c.toNat - 48) else none

def readFixed : Nat → Nat → List Char → Option (Nat × List Char)
  | 0, acc, cs => some (acc, cs)
  | _ + 1, _, [] => none
  | count + 1, acc, c :: rest =>
    match asciiDigit? c with
    | some d => readFixed count (10 * acc + d) rest
    | none => none

/-- The parts of a time of day, and whether something was left after them. -/
structure Parts where
  hour : Nat := 0
  minute : Nat := 0
  second : Nat := 0
  micro : Nat := 0
  leftover : Bool

/-- A fraction of a second in microseconds. `available` is the number of bytes before the offset and
`rest` the text from the fraction on. -/
def readFraction (parts : Parts) (available : Nat) (rest : List Char) : Option Parts :=
  let count := min available 6
  match readFixed count 0 rest with
  | none => none
  | some (value, after) =>
    let after := after.dropWhile fun c => (asciiDigit? c).isSome
    some { parts with
      micro := value * Nat.pow 10 (6 - count)
      leftover := after.headD endMark != endMark }

def Parts.set (parts : Parts) (index value : Nat) : Parts :=
  match index with
  | 0 => { parts with hour := value }
  | 1 => { parts with minute := value }
  | _ => { parts with second := value }

/-- Reads the parts from the `index`-th on. `available` is the number of bytes before the offset; a
numeral itself may reach beyond it and then is followed by nothing. -/
def readParts (remaining index available : Nat) (separated : Bool) (parts : Parts)
    (cs : List Char) : Option Parts :=
  match remaining with
  | 0 => readFraction parts available cs
  | remaining + 1 =>
    match readFixed 2 0 cs with
    | none => none
    | some (value, rest) =>
      let parts := parts.set index value
      let c := rest.headD endMark
      let separated := if index = 0 then c == ':' else separated
      if available ≤ 3 then some { parts with leftover := c != endMark }
      else if separated && c == ':' then
        readParts remaining (index + 1) (available - 3) separated parts (rest.drop 1)
      else if c == '.' || c == ',' then readFraction parts (available - 3) (rest.drop 1)
      else if !separated then
        readParts remaining (index + 1) (available - 2) separated parts rest
      else none

def readTime (available : Nat) (cs : List Char) : Option Parts :=
  readParts 3 0 available true ⟨0, 0, 0, 0, false⟩ cs

def isOffsetMark (c : Char) : Bool := c == '+' || c == '-' || c == 'Z'

/-- The offset in microseconds that a text after a time writes. Less than a second stands for no
offset at all, and an offset of a day or more is refused. -/
def readOffset : List Char → Option Int
  | 'Z' :: rest => if rest.headD endMark = endMark then some 0 else none
  | mark :: rest =>
    match readTime rest.length rest with
    | some parts =>
      let seconds := (parts.hour * 60 + parts.minute) * 60 + parts.second
      let total := seconds * Duration.perSecond + parts.micro
      if parts.leftover then none
      else if seconds = 0 then some 0
      else if Duration.perDay ≤ total then none
      else some (if mark = '-' then -total else total)
    | none => none
  | [] => none

def readBytes (cs : List Char) : Option Clock :=
  let cs := match cs with
    | 'T' :: rest => rest
    | _ => cs
  let before := cs.takeWhile (!isOffsetMark ·)
  let rest := cs.drop before.length
  match readTime before.length cs with
  | none => none
  | some parts =>
    let clock : Clock := ⟨parts.hour, parts.minute, parts.second, parts.micro, none⟩
    if !clock.inRange then none
    else match rest with
      | [] => if parts.leftover then none else some clock
      | _ => (readOffset rest).map fun offset => { clock with offset := some offset }

def read? (s : String) : Option Clock :=
  readBytes (s.toUTF8.toList.map fun b => Char.ofNat b.toNat)

end Domotics.Clock
