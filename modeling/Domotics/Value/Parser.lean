import Domotics.Value.Measure
import Domotics.Value.Typing

/-!
Reading a value of a device from a configuration. A type may be asked for; without one the form of
the text decides.
-/

namespace Domotics.Value

def stateOfName? (s : String) : Option Value :=
  match OnOff.ofName? s with
  | some v => some (.onOff v)
  | none => match OpenClosed.ofName? s with
    | some v => some (.openClosed v)
    | none => (Status.ofName? s).map .status

def member (family : String) (find : String → Option Value) (d : Document) : Result Value :=
  let name := Text.upper d.asText
  match find name with
  | some v => .ok v
  | none => Result.invalid (.notMember (.text name) family)

/-- A measure as a value of the type that is asked for. A whole number without a point is an exact
integer. -/
def ofMeasure (m : Measure) (hasPoint : Bool) (type : Option ValueType) : Value :=
  if m.unit = ['%'] ∨ type = some .percent then .quantity (.real m.amount) "%"
  else if m.unit ≠ [] then .quantity (.real m.amount) (String.ofList m.unit)
  else if type = some .quantity then .quantity (.real m.amount) ""
  else match m.amount with
    | .finite negative units =>
      if m.amount.isInteger && !hasPoint then .plain (.int (Binary64.truncate negative units))
      else .plain (.number (.real m.amount))
    | x => .plain (.number (.real x))

/-- The value that a text stands for; `raw` is the document it came from. -/
def ofText (raw : Document) (cs : List Char) (type : Option ValueType) : Result Value :=
  match type, stateOfName? (String.ofList (Character.upperCase cs)) with
  | none, some v => .ok v
  | _, _ =>
    match Measure.read? cs with
    | some m => .ok (ofMeasure m (cs.contains '.') type)
    | none => match type with
      | some .percent | some .quantity | some .decimal =>
        Result.invalid (.unparsable raw (type.getD .decimal))
      | _ => .ok (.plain (.text (String.ofList cs)))

def parseDocument (d : Document) (type : Option ValueType) : Result Value :=
  match d with
  | .null => .ok absent
  | .bool b => .ok (.onOff (if b then .on else .off))
  | _ =>
    match type with
    | some .text => .ok (.plain (.text d.asText))
    | some .onOff => member "OnOffType" (fun s => (OnOff.ofName? s).map .onOff) d
    | some .openClosed => member "OpenClosedType" (fun s => (OpenClosed.ofName? s).map .openClosed) d
    | some .status => member "ThingStatus" (fun s => (Status.ofName? s).map .status) d
    | _ => match d with
      | .number x => if type = some .percent then percent x else .ok (.plain d)
      | _ => ofText d (Text.trimChars d.asText.toList) type

/-- Reads a value; one that already has a state or a unit stays as it is. -/
def parse (raw : Value) (type : Option ValueType) : Result Value :=
  match raw with
  | .plain d => parseDocument d type
  | v => .ok v

@[simp] theorem parse_onOff (s : OnOff) (t : Option ValueType) :
    parse (.onOff s) t = .ok (.onOff s) := rfl

@[simp] theorem parse_absent (t : Option ValueType) : parse absent t = .ok absent := rfl

end Domotics.Value
