import Domotics.Text.Part

/-!
Message templates. A template is text with fields in braces; a brace is written twice to stand for
itself. A field names a value, may take parts of it, may convert it to its literal form, and may say
how to pad and cut the result.
-/

namespace Domotics.Template

open Character
open Layout (malformed readNumber)

structure Field where
  name : List Char
  conversion : Option Char := none
  layout : List Char := []

/-- The name of a field up to what ends it. Brackets may hold anything. -/
def readName (inBrackets : Bool) (acc : List Char) :
    List Char → Result (List Char × Char × List Char)
  | [] => malformed "expected '\x7d' before end of string"
  | c :: rest =>
    if inBrackets then readName (c != ']') (c :: acc) rest
    else if c = '\x7b' then malformed "unexpected '\x7b' in field name"
    else if c = '[' then readName true (c :: acc) rest
    else if c = '\x7d' ∨ c = ':' ∨ c = '!' then .ok (acc.reverse, c, rest)
    else readName false (c :: acc) rest

/-- A layout up to the brace that closes its field; `depth` counts the braces that are open. -/
def readLayout (depth : Nat) (acc : List Char) : List Char → Result (List Char × List Char)
  | [] => malformed "unmatched '\x7b' in format spec"
  | c :: rest =>
    if c = '\x7b' then readLayout (depth + 1) (c :: acc) rest
    else if c = '\x7d' then
      if depth = 0 then .ok (acc.reverse, rest) else readLayout (depth - 1) (c :: acc) rest
    else readLayout depth (c :: acc) rest

def readField (cs : List Char) : Result (Field × List Char) := do
  let (name, mark, rest) ← readName false [] cs
  if mark = '\x7d' then return ({ name }, rest)
  else if mark = ':' then
    let (layout, rest) ← readLayout 0 [] rest
    return ({ name, layout }, rest)
  else match rest with
    | [] => malformed "end of string while looking for conversion specifier"
    | conversion :: '\x7d' :: rest => return ({ name, conversion := some conversion }, rest)
    | conversion :: ':' :: rest =>
      let (layout, rest) ← readLayout 0 [] rest
      return ({ name, conversion := some conversion, layout }, rest)
    | _ :: _ :: _ => malformed "expected ':' after conversion specifier"
    | [_] => malformed "unmatched '\x7b' in format spec"

/-- The position that a key writes, if it is one. Digits at the front of any key must not write too
great a number. -/
def position? (key : List Char) : Result (Option Nat) := do
  let n ← readNumber (key.takeWhile isDecimalDigit)
  return if key.all isDecimalDigit then some n else none

/-- The value that the first part of a name refers to. Values have names only, no positions. -/
def baseValue (arguments : List (String × Document)) (name : List Char) : Result Document := do
  match ← position? name with
  | some n => Result.misuse (.noPosition n)
  | none => match Document.entry? (String.ofList name) arguments with
    | some d => .ok d
    | none => Result.misuse (.noKey (String.ofList name))

/-- Takes parts of a part, one after the other. Each step uses up a character at least, so the length
of the rest bounds the number of steps. -/
def partsOf (p : Part) : Nat → List Char → Result Part
  | _, [] => .ok p
  | 0, _ => .ok p
  | fuel + 1, c :: rest =>
    if c = '.' then
      let name := rest.takeWhile fun c => c != '.' && c != '['
      if name = [] then malformed "Empty attribute in format string"
      else do partsOf (← p.named (String.ofList name)) fuel (rest.drop name.length)
    else if c = '[' then
      let key := rest.takeWhile (· != ']')
      if key.length = rest.length then malformed "Missing ']' in format string"
      else if key = [] then malformed "Empty attribute in format string"
      else do partsOf (← p.item (← position? key)) fuel (rest.drop (key.length + 1))
    else malformed "Only '.' or '[' may follow ']' in format field specifier"

def partOf (arguments : List (String × Document)) (name : List Char) : Result Part := do
  let base := name.takeWhile fun c => c != '.' && c != '['
  let d ← baseValue arguments base
  partsOf (.value d) name.length (name.drop base.length)

def asciiChar (c : Char) : List Char :=
  if c.toNat < 128 then [c]
  else if c.toNat < 256 then '\\' :: 'x' :: Document.hexadecimal 2 c.toNat
  else if c.toNat < 65536 then '\\' :: 'u' :: Document.hexadecimal 4 c.toNat
  else '\\' :: 'U' :: Document.hexadecimal 8 c.toNat

/-- Converts a part to its literal form, to ASCII, or to running text. The null character stands for
no conversion. -/
def convert (conversion : Option Char) (p : Part) : Result Part :=
  match conversion with
  | none | some '\x00' => .ok p
  | some 'r' => .ok (.text p.literal)
  | some 's' => .ok (.text p.asText)
  | some 'a' => .ok (.text (String.ofList (p.literal.toList.flatMap asciiChar)))
  | some c =>
    malformed ("Unknown conversion specifier " ++
      (if 32 < c.toNat ∧ c.toNat < 127 then String.singleton c
        else "\\x" ++ String.ofList (Nat.toDigits 16 c.toNat)))

def literalPart (cs : List Char) : List Char :=
  cs.takeWhile fun c => c != '\x7b' && c != '\x7d'

/-- Fills a template in. Layouts may themselves have fields, to the given depth. Each step uses up a
character of the template at least, so its length bounds the number of steps. -/
def fill (arguments : List (String × Document)) : Nat → Nat → List Char → Result (List Char)
  | 0, _, _ => malformed "Max string recursion exceeded"
  | _, 0, _ => .ok []
  | depth + 1, fuel + 1, cs =>
    let literal := literalPart cs
    match cs.drop literal.length with
    | [] => .ok literal
    | [c] => malformed (if c = '\x7b' then "Single '\x7b' encountered in format string"
        else "Single '\x7d' encountered in format string")
    | c :: d :: rest =>
      if c = d then do return literal ++ c :: (← fill arguments (depth + 1) fuel rest)
      else if c = '\x7d' then malformed "Single '\x7d' encountered in format string"
      else do
        let (field, rest) ← readField (d :: rest)
        let part ← convert field.conversion (← partOf arguments field.name)
        let layout ←
          if field.layout.contains '\x7b' then fill arguments depth fuel field.layout
          else pure field.layout
        let shown ← part.layOut layout
        return literal ++ shown ++ (← fill arguments (depth + 1) fuel rest)

def render (template : String) (arguments : List (String × Document)) : Result String := do
  let cs := template.toList
  return String.ofList (← fill arguments 2 (cs.length + 1) cs)

end Domotics.Template
