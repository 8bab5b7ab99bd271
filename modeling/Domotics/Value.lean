import Domotics.Document.Literal
import Domotics.Text

/-!
The values that devices carry. Switches, contacts and connections have states of their own,
measurements are numbers with a unit, and anything else is a plain document.
-/

namespace Domotics

inductive OnOff where
  | on | off
deriving DecidableEq, Inhabited, Repr

inductive OpenClosed where
  | opened | closed
deriving DecidableEq, Inhabited, Repr

inductive Status where
  | online | offline | unknown
deriving DecidableEq, Inhabited, Repr

inductive ValueType where
  | onOff | openClosed | status | percent | quantity | decimal | text
deriving DecidableEq, Inhabited, Repr

/-- A value of a device. The plain document `null` stands for no value. -/
inductive Value where
  | onOff (state : OnOff)
  | openClosed (state : OpenClosed)
  | status (state : Status)
  | quantity (amount : Number) (unit : String)
  | plain (d : Document)
deriving Inhabited, Repr

def OnOff.name : OnOff → String
  | on => "ON"
  | off => "OFF"

def OpenClosed.name : OpenClosed → String
  | opened => "OPEN"
  | closed => "CLOSED"

def Status.name : Status → String
  | online => "ONLINE"
  | offline => "OFFLINE"
  | unknown => "UNKNOWN"

def OnOff.ofName? (s : String) : Option OnOff := [on, off].find? (·.name == s)

def OpenClosed.ofName? (s : String) : Option OpenClosed := [opened, closed].find? (·.name == s)

def Status.ofName? (s : String) : Option Status := [online, offline, unknown].find? (·.name == s)

namespace ValueType

def name : ValueType → String
  | onOff => "on_off"
  | openClosed => "open_closed"
  | status => "status"
  | percent => "percent"
  | quantity => "quantity"
  | decimal => "decimal"
  | text => "string"

def all : List ValueType := [decimal, onOff, openClosed, percent, quantity, status, text]

def ofName? (s : String) : Option ValueType := all.find? (·.name == s)

def sorted (types : List ValueType) : List ValueType := all.filter types.contains

@[simp] theorem mem_all (t : ValueType) : t ∈ all := by cases t <;> simp [all]

@[simp] theorem mem_sorted (t : ValueType) (types : List ValueType) :
    t ∈ sorted types ↔ t ∈ types := by simp [sorted]

end ValueType

namespace Value

def absent : Value := .plain .null

def isPresent : Value → Bool
  | .plain .null => false
  | _ => true

/-- Equality of values: states equal only themselves, quantities agree in amount and unit, and plain
values are compared as documents. -/
def equals : Value → Value → Bool
  | .onOff a, .onOff b => a == b
  | .openClosed a, .openClosed b => a == b
  | .status a, .status b => a == b
  | .quantity x u, .quantity y v => x.agrees y && u == v
  | .plain d, .plain e => d.equals e
  | _, _ => false

/-- Equality of values that are parts of a record, where a value that is not a number agrees with
itself. -/
def agrees : Value → Value → Bool
  | .plain d, .plain e => d.agrees e
  | v, w => v.equals w

def ofPlain : Document → Value
  | .bool b => .onOff (if b then .on else .off)
  | d => .plain d

/-- An amount to six significant digits; none beyond the range of floating-point numbers. -/
def amountText? (amount : Number) : Option String := amount.toReal?.map Binary64.measureText

def text? : Value → Option String
  | .onOff s => some ("OnOffType." ++ s.name)
  | .openClosed s => some ("OpenClosedType." ++ s.name)
  | .status s => some ("ThingStatus." ++ s.name)
  | .quantity amount unit =>
    (amountText? amount).map fun s =>
      if unit = "%" then s ++ "%" else Text.trim (s ++ " " ++ unit)
  | .plain d => some d.asText

def memberLiteral (family name : String) : String :=
  "<" ++ family ++ "." ++ name ++ ": " ++ Document.quote name ++ ">"

def literal : Value → String
  | .onOff s => memberLiteral "OnOffType" s.name
  | .openClosed s => memberLiteral "OpenClosedType" s.name
  | .status s => memberLiteral "ThingStatus" s.name
  | .quantity amount unit =>
    "Quantity(value=" ++ amount.text ++ ", unit=" ++ Document.quote unit ++ ")"
  | .plain d => d.literal

@[simp] theorem isPresent_absent : isPresent absent = false := rfl

@[simp] theorem onOff_equals (a b : OnOff) : (Value.onOff a).equals (.onOff b) = (a == b) := rfl

@[simp] theorem status_equals (a b : Status) : (Value.status a).equals (.status b) = (a == b) := rfl

end Value
end Domotics
