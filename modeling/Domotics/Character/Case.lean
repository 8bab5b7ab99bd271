import Domotics.Character.CaseTable

/-!
Capital and small forms of a text. Both may change the number of characters; the small form of a
sigma depends on its neighbours.
-/

namespace Domotics.Character

def mapRun (runs : Array CaseRun) (c : Char) : Char :=
  match runs.find? (·.covers c.toNat) with
  | some r => r.apply c.toNat
  | none => c

def toUpper (c : Char) : List Char :=
  if c.toNat < 128 then
    [if 97 ≤ c.toNat ∧ c.toNat ≤ 122 then Char.ofNat (c.toNat - 32) else c]
  else match upperExpansions.find? (·.1 == c.toNat) with
    | some (_, codes) => codes.map Char.ofNat
    | none => [mapRun upperRuns c]

def upperCase (cs : List Char) : List Char := cs.flatMap toUpper

/-- The small form of a character whose neighbours do not matter. The dotted capital I keeps its dot
as a combining mark. -/
def toLower (c : Char) : List Char :=
  if c.toNat < 128 then
    [if 65 ≤ c.toNat ∧ c.toNat ≤ 90 then Char.ofNat (c.toNat + 32) else c]
  else if c.toNat = 304 then ['i', Char.ofNat 775]
  else [mapRun lowerRuns c]

/-- Whether the nearest character that is not ignored is a cased letter. -/
def nextIsCased : List Char → Bool
  | [] => false
  | c :: rest =>
    if inSpans caseIgnorableSpans c.toNat then nextIsCased rest else inSpans casedSpans c.toNat

/-- The small form of a text, given the characters before it in reverse. A sigma that ends a word
takes its final form. -/
def lowerCaseAfter (before : List Char) : List Char → List Char
  | [] => []
  | c :: rest =>
    let small :=
      if c.toNat = 931 then
        [Char.ofNat (if nextIsCased before && !nextIsCased rest then 962 else 963)]
      else toLower c
    small ++ lowerCaseAfter (c :: before) rest

def lowerCase (cs : List Char) : List Char := lowerCaseAfter [] cs

end Domotics.Character
