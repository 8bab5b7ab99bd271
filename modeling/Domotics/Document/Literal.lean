import Domotics.Character.Printable
import Domotics.Document

/-!
The literal form of a document, as messages show it. Texts stand in quotation marks and characters
without a visible form are written by their number.
-/

namespace Domotics.Document

def hexadecimal (width n : Nat) : List Char :=
  let digits := Nat.toDigits 16 n
  List.replicate (width - digits.length) '0' ++ digits

def quoteChar (mark c : Char) : List Char :=
  if c = mark ∨ c = '\\' then ['\\', c]
  else if c = '\n' then ['\\', 'n']
  else if c = '\t' then ['\\', 't']
  else if c = '\r' then ['\\', 'r']
  else if Character.isPrintable c then [c]
  else if c.toNat < 256 then '\\' :: 'x' :: hexadecimal 2 c.toNat
  else if c.toNat < 65536 then '\\' :: 'u' :: hexadecimal 4 c.toNat
  else '\\' :: 'U' :: hexadecimal 8 c.toNat

/-- A text between quotation marks. Single marks are used unless the text has one and no double
mark. -/
def quote (s : String) : String :=
  let cs := s.toList
  let mark := if cs.contains '\'' && !cs.contains '"' then '"' else '\''
  String.ofList (mark :: cs.flatMap (quoteChar mark) ++ [mark])

mutual

def literal : Document → String
  | null => "None"
  | bool b => if b then "True" else "False"
  | number x => x.text
  | text s => quote s
  | list items => "[" ++ ", ".intercalate (literals items) ++ "]"
  | object entries => "\x7b" ++ ", ".intercalate (entryLiterals entries) ++ "\x7d"

def literals : List Document → List String
  | [] => []
  | d :: rest => literal d :: literals rest

def entryLiterals : List (String × Document) → List String
  | [] => []
  | e :: rest => entryLiteral e :: entryLiterals rest

def entryLiteral : String × Document → String
  | (key, value) => quote key ++ ": " ++ literal value

end

/-- A document as running text: a text stands for itself, anything else for its literal form. -/
def asText : Document → String
  | text s => s
  | d => d.literal

@[simp] theorem asText_text (s : String) : asText (.text s) = s := rfl

end Domotics.Document
