import Domotics.Document

/-!
Reading a document from its written form. The form is that of JSON, with the names `NaN`, `Infinity`
and `-Infinity` for the numbers that have no digits. A numeral without a point and an exponent is an
exact integer. Of two entries with one key the later value counts, in the place of the earlier.
-/

namespace Domotics.Document

def skipBlanks (cs : List Char) : List Char :=
  cs.dropWhile fun c => c = ' ' || c = '\n' || c = '\t' || c = '\r'

def hexDigit? (c : Char) : Option Nat :=
  if '0' ≤ c ∧ c ≤ '9' then some (c.toNat - 48)
  else if 'a' ≤ c ∧ c ≤ 'f' then some (c.toNat - 87)
  else if 'A' ≤ c ∧ c ≤ 'F' then some (c.toNat - 55)
  else none

def readUnit : List Char → Option (Nat × List Char)
  | a :: b :: c :: d :: rest => do
    let a ← hexDigit? a
    let b ← hexDigit? b
    let c ← hexDigit? c
    let d ← hexDigit? d
    some (((a * 16 + b) * 16 + c) * 16 + d, rest)
  | _ => none

/-- The character of a code unit; half of a pair stands for the replacement character. -/
def unitChar (u : Nat) : Char :=
  if 0xD800 ≤ u ∧ u < 0xE000 then Char.ofNat 0xFFFD else Char.ofNat u

/-- A character written by code units, two of them for a character beyond the first plane. -/
def readEscapedUnit (cs : List Char) : Option (Char × List Char) := do
  let (u, rest) ← readUnit cs
  if 0xD800 ≤ u ∧ u < 0xDC00 then
    match rest with
    | '\\' :: 'u' :: more =>
      match readUnit more with
      | some (v, rest') =>
        if 0xDC00 ≤ v ∧ v < 0xE000 then
          some (Char.ofNat (0x10000 + (u - 0xD800) * 1024 + (v - 0xDC00)), rest')
        else some (unitChar u, rest)
      | none => none
    | _ => some (unitChar u, rest)
  else some (unitChar u, rest)

def escapeChar? : Char → Option Char
  | '"' => some '"'
  | '\\' => some '\\'
  | '/' => some '/'
  | 'b' => some (Char.ofNat 8)
  | 'f' => some (Char.ofNat 12)
  | 'n' => some '\n'
  | 'r' => some '\r'
  | 't' => some '\t'
  | _ => none

/-- The characters of a text up to its closing mark, collected in reverse. -/
def readChars : Nat → List Char → List Char → Option (String × List Char)
  | 0, _, _ => none
  | _ + 1, _, [] => none
  | fuel + 1, acc, c :: rest =>
    if c = '"' then some (String.ofList acc.reverse, rest)
    else if c = '\\' then match rest with
      | 'u' :: more => do
        let (d, rest) ← readEscapedUnit more
        readChars fuel (d :: acc) rest
      | e :: more => do
        let d ← escapeChar? e
        readChars fuel (d :: acc) more
      | [] => none
    else if c.toNat < 32 then none
    else readChars fuel (c :: acc) rest

def readDigits (cs : List Char) : List Char × List Char :=
  (cs.takeWhile Char.isDigit, cs.dropWhile Char.isDigit)

def digitsValue (cs : List Char) : Nat := cs.foldl (fun n c => 10 * n + (c.toNat - 48)) 0

def readExponent (cs : List Char) : Int × List Char :=
  let parse (negative : Bool) (rest : List Char) : Int × List Char :=
    let (ds, rest') := readDigits rest
    if ds = [] then (0, cs) else (if negative then -digitsValue ds else digitsValue ds, rest')
  match cs with
  | e :: rest =>
    if e = 'e' ∨ e = 'E' then
      match rest with
      | '-' :: more => parse true more
      | '+' :: more => parse false more
      | more => parse false more
    else (0, cs)
  | [] => (0, [])

def readNumber (negative : Bool) (cs : List Char) : Option (Document × List Char) :=
  let (whole, rest) := readDigits cs
  if whole = [] then none
  else
    let (places, rest') := match rest with
      | '.' :: more =>
        let (ds, more') := readDigits more
        if ds = [] then ([], rest) else (ds, more')
      | _ => ([], rest)
    let (exponent, rest'') := readExponent rest'
    if rest'' = rest then
      some (.int (if negative then -digitsValue whole else digitsValue whole), rest)
    else
      some (.number (.real (Binary64.ofDecimal negative (digitsValue (whole ++ places))
        (exponent - places.length))), rest'')

def words : List (List Char × Document) :=
  [("null".toList, .null), ("true".toList, .bool true), ("false".toList, .bool false),
    ("NaN".toList, .number (.real .nan)), ("Infinity".toList, .number (.real (.infinite false))),
    ("-Infinity".toList, .number (.real (.infinite true)))]

def readScalar (cs : List Char) : Option (Document × List Char) :=
  match words.find? (fun w => w.1.isPrefixOf cs) with
  | some (w, d) => some (d, cs.drop w.length)
  | none => match cs with
    | '-' :: rest => readNumber true rest
    | _ => readNumber false cs

mutual

def readValue : Nat → List Char → Option (Document × List Char)
  | 0, _ => none
  | fuel + 1, cs =>
    match skipBlanks cs with
    | '"' :: rest => (readChars (rest.length + 1) [] rest).map fun (s, r) => (.text s, r)
    | '[' :: rest =>
      match skipBlanks rest with
      | ']' :: r => some (.list [], r)
      | r => readItems fuel [] r
    | '\x7b' :: rest =>
      match skipBlanks rest with
      | '\x7d' :: r => some (.object [], r)
      | r => readEntries fuel [] r
    | cs => readScalar cs

def readItems : Nat → List Document → List Char → Option (Document × List Char)
  | 0, _, _ => none
  | fuel + 1, acc, cs => do
    let (d, rest) ← readValue fuel cs
    match skipBlanks rest with
    | ',' :: r => readItems fuel (d :: acc) r
    | ']' :: r => some (.list (d :: acc).reverse, r)
    | _ => none

def readEntries : Nat → List (String × Document) → List Char → Option (Document × List Char)
  | 0, _, _ => none
  | fuel + 1, acc, cs => do
    match skipBlanks cs with
    | '"' :: more =>
      let (key, rest) ← readChars (more.length + 1) [] more
      match skipBlanks rest with
      | ':' :: rest =>
        let (d, rest) ← readValue fuel rest
        let acc := putEntry key d acc
        match skipBlanks rest with
        | ',' :: r => readEntries fuel acc r
        | '\x7d' :: r => some (.object acc, r)
        | _ => none
      | _ => none
    | _ => none

end

def read? (s : String) : Option Document :=
  let cs := s.toList
  match readValue (2 * cs.length + 2) cs with
  | some (d, rest) => if skipBlanks rest = [] then some d else none
  | none => none

end Domotics.Document
