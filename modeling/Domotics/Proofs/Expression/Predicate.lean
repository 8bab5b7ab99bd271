import Domotics.Expression.Parser
import Domotics.Proofs.Result

/-!
How a predicate comes about. It compares with the values under its keys, read as the type that it asks for, except that
it reads a truth value as a state of a switch.
-/

namespace Domotics

namespace Value

variable {v : Value}

/-- Whether a value is a truth value that nothing has made a state of a switch. -/
def isTruth : Value → Bool
  | .plain (.bool _) => true
  | _ => false

def prepared : Value → Value
  | .plain d => .ofPlain d
  | v => v

theorem prepared_of_not_truth (h : v.isTruth = false) : v.prepared = v := by
  match v, h with
  | .plain .null, _ | .plain (.number _), _ | .plain (.text _), _ | .plain (.list _), _
  | .plain (.object _), _ | .onOff _, _ | .openClosed _, _ | .status _, _ | .quantity .., _ => rfl

/-- A value that is equal to itself is equal to what a predicate makes of it, unless that is something
else. -/
theorem equals_prepared (h : v.equals v = true) : v.equals v.prepared = !v.isTruth := by
  cases htruth : v.isTruth with
  | false => rw [prepared_of_not_truth htruth, h, Bool.not_false]
  | true =>
    match v, htruth with
    | .plain (.bool b), _ => rfl

theorem typeOf_prepared (v : Value) : v.prepared.typeOf = v.typeOf := by
  match v with
  | .plain (.bool true) | .plain (.bool false) => rfl
  | .plain .null | .plain (.number _) | .plain (.text _) | .plain (.list _) | .plain (.object _) => rfl
  | .onOff _ | .openClosed _ | .status _ | .quantity .. => rfl

end Value

namespace Predicate

variable {kind : PredicateKind} {entries : List (String × Document)} {p : Predicate}

/-- The values that a predicate compares with, under the keys from which they are read. -/
def comparands (p : Predicate) : List (String × Value) :=
  if p.kind = .goesFrom then [("to", p.value), ("from", p.origin)] else [("value", p.value)]

def typeFor (value origin : Value) : Option ValueType → Result (Option ValueType)
  | some type => .ok (some type)
  | none => do
    match ← value.typeOf with
    | some type => return some type
    | none => origin.typeOf

theorem typeFor_absent (v : Value) : typeFor v .absent none = v.typeOf := by
  rw [typeFor]
  rcases v.typeOf with fault | _ | type
  · rfl
  · rfl
  · rfl

theorem make_eq_typeFor (target : Document) (kind : PredicateKind) (value origin : Value) (type : Option ValueType) :
    make target kind value origin type =
      if !target.isSet then Result.invalid .emptyTarget
      else if kind.needsValue && !value.prepared.isPresent then Result.invalid (.needsValue kind.name target)
      else if kind = .goesFrom && !origin.prepared.isPresent then Result.invalid (.needsFrom target)
      else (typeFor value.prepared origin.prepared type).map fun type =>
        ⟨target, kind, value.prepared, origin.prepared, type⟩ := by
  rw [make]
  cases target.isSet
  · rfl
  change (if kind.needsValue && !value.prepared.isPresent then _ else _) = _
  cases kind.needsValue && !value.prepared.isPresent
  · change (if kind = .goesFrom && !origin.prepared.isPresent then _ else _) = _
    cases decide (kind = .goesFrom) && !origin.prepared.isPresent
    · cases type with
      | some type => rfl
      | none =>
        change (value.prepared.typeOf >>= _) = Except.map _ (value.prepared.typeOf >>= _)
        rcases value.prepared.typeOf with fault | _ | type
        · rfl
        · change (origin.prepared.typeOf >>= _) = Except.map _ origin.prepared.typeOf
          cases origin.prepared.typeOf with
          | error fault => rfl
          | ok type => rfl
        · rfl
    · rfl
  · rfl

theorem parts_of_make {target : Document} {value origin : Value} {type : Option ValueType}
    (h : make target kind value origin type = .ok p) :
    p.target = target ∧ p.kind = kind ∧ p.value = value.prepared ∧ p.origin = origin.prepared ∧
      typeFor value.prepared origin.prepared type = .ok p.type := by
  rw [make_eq_typeFor] at h
  split at h
  · cases h
  split at h
  · cases h
  split at h
  · cases h
  · obtain ⟨found, hfound, rfl⟩ := Result.map_eq_ok.mp h
    exact ⟨rfl, rfl, rfl, rfl, hfound⟩

theorem eq_of_requiredEntry {context key : String} {d : Document} (h : requiredEntry context key entries = .ok d) :
    (Document.entry? key entries).getD .null = d := by
  rw [requiredEntry] at h
  split at h
  · cases h
  · cases h
    rfl

theorem typeEntry_name {type : ValueType} (h : Document.entry? "value_type" entries = some (.text type.name)) :
    typeEntry entries = .ok (some type) := by
  rw [typeEntry, h]
  cases type <;> rfl

theorem read_of_mem_comparands {type : ValueType} {key : String} {w : Value}
    (h : parse kind (.object entries) = .ok p)
    (htype : Document.entry? "value_type" entries = some (.text type.name)) (hw : (key, w) ∈ p.comparands) :
    p.type = some type ∧
      ∃ v, Value.parseDocument ((Document.entry? key entries).getD .null) (some type) = .ok v ∧ w = v.prepared := by
  rw [parse, typeEntry_name htype, Result.ok_bind] at h
  obtain ⟨target, -, h⟩ := Result.bind_eq_ok.mp h
  split at h
  · next hgoes =>
    obtain ⟨goal, hgoal, h⟩ := Result.bind_eq_ok.mp h
    obtain ⟨value, hvalue, h⟩ := Result.bind_eq_ok.mp h
    obtain ⟨start, hstart, h⟩ := Result.bind_eq_ok.mp h
    obtain ⟨origin, horigin, h⟩ := Result.bind_eq_ok.mp h
    obtain ⟨-, hkind, hpvalue, hporigin, hptype⟩ := parts_of_make h
    rw [comparands, if_pos (hkind.trans hgoes), List.mem_cons, List.mem_singleton] at hw
    refine ⟨(Except.ok.inj hptype).symm, ?_⟩
    rcases hw with heq | heq
    · cases heq
      rw [eq_of_requiredEntry hgoal]
      exact ⟨value, hvalue, hpvalue⟩
    · cases heq
      rw [eq_of_requiredEntry hstart]
      exact ⟨origin, horigin, hporigin⟩
  · next hgoes =>
    obtain ⟨value, hvalue, h⟩ := Result.bind_eq_ok.mp h
    obtain ⟨-, hkind, hpvalue, -, hptype⟩ := parts_of_make h
    rw [comparands, if_neg (hkind ▸ hgoes), List.mem_singleton] at hw
    cases hw
    exact ⟨(Except.ok.inj hptype).symm, value, hvalue, hpvalue⟩

end Predicate
end Domotics
