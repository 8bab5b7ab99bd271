import Domotics.Fault

/-!
The type of a value, which decides the devices that accept it. Lists and objects have none.
-/

namespace Domotics.Value

/-- The type of a value; no value has no type. A truth value counts as a state of a switch. -/
def typeOf : Value → Result (Option ValueType)
  | .onOff _ => .ok (some .onOff)
  | .openClosed _ => .ok (some .openClosed)
  | .status _ => .ok (some .status)
  | .quantity _ unit => .ok (some (if unit = "%" then .percent else .quantity))
  | .plain .null => .ok none
  | .plain (.bool _) => .ok (some .onOff)
  | .plain (.number _) => .ok (some .decimal)
  | .plain (.text _) => .ok (some .text)
  | .plain d => Result.invalid (.unsupported d)

def percent (amount : Number) : Result Value :=
  match amount.toReal? with
  | some x => .ok (.quantity (.real x) "%")
  | none => Result.misuse .realRange

def text (v : Value) : Result String :=
  match v.text? with
  | some s => .ok s
  | none => Result.misuse .realRange

@[simp] theorem typeOf_absent : typeOf absent = .ok none := rfl

theorem typeOf_eq_none_iff (v : Value) : typeOf v = .ok none ↔ v = absent := by
  constructor
  · intro h
    match v, h with
    | .plain .null, _ => rfl
    | .plain (.bool _), h => simp [typeOf] at h
    | .plain (.number _), h => simp [typeOf] at h
    | .plain (.text _), h => simp [typeOf] at h
    | .plain (.list _), h => simp [typeOf] at h
    | .plain (.object _), h => simp [typeOf] at h
    | .onOff _, h => simp [typeOf] at h
    | .openClosed _, h => simp [typeOf] at h
    | .status _, h => simp [typeOf] at h
    | .quantity _ _, h => simp [typeOf] at h
  · rintro rfl; rfl

end Domotics.Value
