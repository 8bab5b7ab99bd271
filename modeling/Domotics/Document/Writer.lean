import Domotics.Document.Literal

/-!
Writing a document in the form in which it is read.
-/

namespace Domotics.Document

def escapeChar (c : Char) : List Char :=
  if c = '"' ∨ c = '\\' then ['\\', c]
  else if c.toNat < 32 then '\\' :: 'u' :: hexadecimal 4 c.toNat
  else [c]

def writeText (s : String) : String :=
  String.ofList ('"' :: s.toList.flatMap escapeChar ++ ['"'])

/-- A number; infinities and the value that is not a number are written as words. -/
def writeNumber : Number → String
  | .real .nan => "NaN"
  | .real (.infinite negative) => if negative then "-Infinity" else "Infinity"
  | x => x.text

mutual

def write : Document → String
  | null => "null"
  | bool b => if b then "true" else "false"
  | number x => writeNumber x
  | text s => writeText s
  | list items => "[" ++ ",".intercalate (writeItems items) ++ "]"
  | object entries => "\x7b" ++ ",".intercalate (writeEntries entries) ++ "\x7d"

def writeItems : List Document → List String
  | [] => []
  | d :: rest => write d :: writeItems rest

def writeEntries : List (String × Document) → List String
  | [] => []
  | e :: rest => writeEntry e :: writeEntries rest

def writeEntry : String × Document → String
  | (key, value) => writeText key ++ ":" ++ write value

end

end Domotics.Document
