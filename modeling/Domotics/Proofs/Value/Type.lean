import Domotics.Proofs.Binary64.Integer
import Domotics.Proofs.Expression.Predicate
import Domotics.Proofs.Value.Measure

/-!
The type that is asked for. A text that is read as a value of a type becomes a value of that type, except that a number
keeps the unit that is written after it: with a unit it is no decimal, and a percentage is no quantity, although the
types were asked for.
-/

namespace Domotics

open Character

namespace Value

/-- The values that a text may stand for: a state by its name, a measure, or the text itself. A state is looked for only
if no type is asked for, and the text is given back only if the type has room for it. -/
inductive OfText (cs : List Char) : Option ValueType → Value → Prop
  | state {v : Value} (hstate : stateOfName? (String.ofList (upperCase cs)) = some v) : OfText cs none v
  | measure {type : Option ValueType} {m : Measure}
      (hstate : type = none → stateOfName? (String.ofList (upperCase cs)) = none) (hread : Measure.read? cs = some m) :
      OfText cs type (ofMeasure m (cs.contains '.') type)
  | text {type : Option ValueType} (hstate : type = none → stateOfName? (String.ofList (upperCase cs)) = none)
      (hread : Measure.read? cs = none)
      (htype : type ≠ some .percent ∧ type ≠ some .quantity ∧ type ≠ some .decimal) :
      OfText cs type (.plain (.text (String.ofList cs)))

variable {raw : Document} {cs : List Char} {type : Option ValueType} {v : Value}

def ofOther (raw : Document) (cs : List Char) (type : Option ValueType) : Result Value :=
  match Measure.read? cs with
  | some m => .ok (ofMeasure m (cs.contains '.') type)
  | none => match type with
    | some .percent | some .quantity | some .decimal => Result.invalid (.unparsable raw (type.getD .decimal))
    | _ => .ok (.plain (.text (String.ofList cs)))

theorem ofText_of_state (h : stateOfName? (String.ofList (upperCase cs)) = some v) : ofText raw cs none = .ok v := by
  simp only [ofText, h]

theorem ofText_eq_ofOther (h : type = none → stateOfName? (String.ofList (upperCase cs)) = none) :
    ofText raw cs type = ofOther raw cs type := by
  cases type with
  | none =>
    simp only [ofText, h rfl]
    rfl
  | some t => rfl

theorem ofText_eq_ok_iff : ofText raw cs type = .ok v ↔ OfText cs type v := by
  constructor
  · intro h
    by_cases hstate : type = none → stateOfName? (String.ofList (upperCase cs)) = none
    · rw [ofText_eq_ofOther hstate, ofOther.eq_def] at h
      split at h
      · next hread =>
        cases h
        exact .measure hstate hread
      next hread =>
      split at h
      · cases h
      · cases h
      · cases h
      · next hpercent hquantity hdecimal =>
        cases h
        exact .text hstate hread ⟨hpercent, hquantity, hdecimal⟩
    · obtain ⟨rfl, hne⟩ := Classical.not_imp.mp hstate
      obtain ⟨found, hfound⟩ := Option.ne_none_iff_exists'.mp hne
      rw [ofText_of_state hfound] at h
      cases h
      exact .state hfound
  · intro h
    cases h with
    | state hstate => exact ofText_of_state hstate
    | measure hstate hread => rw [ofText_eq_ofOther hstate, ofOther.eq_def, hread]
    | text hstate hread htype =>
      obtain ⟨hpercent, hquantity, hdecimal⟩ := htype
      rw [ofText_eq_ofOther hstate, ofOther, hread]
      · exact hpercent
      · exact hquantity
      · exact hdecimal

/-- Whether a text is looked at as a measure if the type is asked for, or none. -/
def measured : Option ValueType → Bool
  | none | some .percent | some .quantity | some .decimal => true
  | some .onOff | some .openClosed | some .status | some .text => false

theorem parse_text_of_measured (s : String) (h : measured type = true) :
    parse (.plain (.text s)) type = ofText (.text s) (Text.trimChars s.toList) type := by
  match type, h with
  | none, _ | some .percent, _ | some .quantity, _ | some .decimal, _ => rfl

theorem parse_text_of_read? {s : String} {m : Measure} (htype : measured type = true)
    (htrimmed : Text.trimChars s.toList = cs) (hstate : type = none → stateOfName? (String.ofList (upperCase cs)) = none)
    (hread : Measure.read? cs = some m) :
    parse (.plain (.text s)) type = .ok (ofMeasure m (cs.contains '.') type) := by
  rw [parse_text_of_measured s htype, htrimmed, ofText_eq_ok_iff]
  exact .measure hstate hread

theorem typeOf_ofMeasure (m : Measure) (hasPoint : Bool) (type : Option ValueType) :
    (ofMeasure m hasPoint type).typeOf = .ok (some (
      if m.unit = ['%'] ∨ type = some .percent then .percent
      else if m.unit ≠ [] ∨ type = some .quantity then .quantity
      else .decimal)) := by
  by_cases hpercent : m.unit = ['%'] ∨ type = some .percent
  · rw [ofMeasure, if_pos hpercent, if_pos hpercent]
    rfl
  rw [ofMeasure, if_neg hpercent, if_neg hpercent]
  by_cases hunit : m.unit ≠ []
  · have hname : String.ofList m.unit ≠ "%" := fun heq => hpercent (.inl (String.ofList_inj.mp heq))
    rw [if_pos hunit, if_pos (.inl hunit), typeOf, if_neg hname]
  rw [if_neg hunit]
  by_cases hquantity : type = some .quantity
  · rw [if_pos hquantity, if_pos (.inr hquantity)]
    rfl
  rw [if_neg hquantity, if_neg (not_or.mpr ⟨hunit, hquantity⟩)]
  split
  · split <;> rfl
  · rfl

/-- Whether a text that is a measure suits a type: a decimal has no unit, and a quantity is no percentage. All other
types take what there is. -/
def Suits : ValueType → List Char → Prop
  | .decimal, cs => Measure.HasUnit cs []
  | .quantity, cs => ¬ Measure.HasUnit cs ['%']
  | _, _ => True

/-- What a value that is read from a text for a type has of the type: it is a value of this type if the text suits it, and
if not, it is an amount with the unit that the text has. -/
structure Forced (type : ValueType) (cs : List Char) (v : Value) : Prop where
  typeOf_iff : v.typeOf = .ok (some type) ↔ Suits type cs
  unit_kept : ¬ Suits type cs → ∃ amount unit,
    v = .quantity (.real amount) (String.ofList unit) ∧ unit ≠ [] ∧ Measure.HasUnit cs unit

theorem forced_of_suits {type : ValueType} (hv : v.typeOf = .ok (some type)) (hcs : Suits type cs) :
    Forced type cs v :=
  ⟨iff_of_true hv hcs, fun hnot => absurd hcs hnot⟩

theorem find_of_member {family : String} {find : String → Option Value} (h : member family find raw = .ok v) :
    find (Text.upper raw.asText) = some v := by
  rw [member] at h
  split at h
  · next found hfound =>
    cases h
    exact hfound
  · cases h

theorem exists_of_member {family : String} {State : Type} {ofName? : String → Option State} {state : State → Value}
    (h : member family (fun name => (ofName? name).map state) raw = .ok v) : ∃ s, v = state s := by
  obtain ⟨s, -, hs⟩ := Option.map_eq_some_iff.mp (find_of_member h)
  exact ⟨s, hs.symm⟩

theorem ofMeasure_of_unit {m : Measure} (hunit : m.unit ≠ []) (htype : type ≠ some .percent) (hasPoint : Bool) :
    ofMeasure m hasPoint type = .quantity (.real m.amount) (String.ofList m.unit) := by
  by_cases hpercent : m.unit = ['%']
  · rw [ofMeasure, if_pos (.inl hpercent), hpercent]
  · rw [ofMeasure, if_neg (not_or.mpr ⟨hpercent, htype⟩), if_pos hunit]

/-- A measure without a unit is a number, and without a point it is an integer if it can be. -/
theorem ofMeasure_of_isInteger {x : Binary64} (h : ∀ negative units, x = .finite negative units → x.isInteger = true)
    (htype : type ≠ some .percent ∧ type ≠ some .quantity) :
    ofMeasure ⟨x, []⟩ false type = .plain (.number (Number.ofWhole x)) := by
  have hpercent : ¬ (([] : List Char) = ['%'] ∨ type = some .percent) := not_or.mpr ⟨nofun, htype.1⟩
  rw [ofMeasure, if_neg hpercent, if_neg (not_not_intro rfl), if_neg htype.2]
  cases x with
  | finite negative units =>
    simp only [h negative units rfl]
    rfl
  | infinite | nan => rfl

theorem forced_of_measure {m : Measure} (hread : Measure.read? cs = some m) {type : ValueType}
    (htype : measured (some type) = true) (hasPoint : Bool) : Forced type cs (ofMeasure m hasPoint (some type)) := by
  have hpercent := Measure.hasUnit_iff hread (.inr rfl)
  have hnone := Measure.hasUnit_iff hread (.inl rfl)
  cases type with
  | percent => exact forced_of_suits (by rw [typeOf_ofMeasure, if_pos (.inr rfl)]) trivial
  | quantity =>
    constructor
    · rw [typeOf_ofMeasure, Suits, hpercent]
      by_cases hunit : m.unit = ['%'] <;> simp [hunit]
    · intro hnot
      have hunit : m.unit = ['%'] := hpercent.mp (not_not.mp hnot)
      have hne : m.unit ≠ [] := hunit ▸ nofun
      exact ⟨m.amount, m.unit, ofMeasure_of_unit hne (by decide) hasPoint, hne, (Measure.hasUnit_of_read? hread).1⟩
  | decimal =>
    constructor
    · rw [typeOf_ofMeasure, Suits, hnone]
      by_cases hunit : m.unit = [] <;> by_cases hunit' : m.unit = ['%'] <;> simp [hunit, hunit']
    · intro hnot
      have hne : m.unit ≠ [] := fun heq => hnot (hnone.mpr heq)
      exact ⟨m.amount, m.unit, ofMeasure_of_unit hne (by decide) hasPoint, hne, (Measure.hasUnit_of_read? hread).1⟩
  | onOff | openClosed | status | text => cases htype

section

variable {type : ValueType} {s : String}

theorem forced_of_ofText (htype : measured (some type) = true) (h : ofText raw cs (some type) = .ok v) :
    Forced type cs v := by
  cases ofText_eq_ok_iff.mp h with
  | measure _ hread => exact forced_of_measure hread htype _
  | text _ _ hnone =>
    obtain ⟨hpercent, hquantity, hdecimal⟩ := hnone
    cases type with
    | percent => exact absurd rfl hpercent
    | quantity => exact absurd rfl hquantity
    | decimal => exact absurd rfl hdecimal
    | onOff | openClosed | status | text => cases htype

theorem forced_of_parseDocument (h : parseDocument (.text s) (some type) = .ok v) :
    Forced type (Text.trimChars s.toList) v := by
  cases type with
  | onOff =>
    obtain ⟨state, rfl⟩ := exists_of_member h
    exact forced_of_suits rfl trivial
  | openClosed =>
    obtain ⟨state, rfl⟩ := exists_of_member h
    exact forced_of_suits rfl trivial
  | status =>
    obtain ⟨state, rfl⟩ := exists_of_member h
    exact forced_of_suits rfl trivial
  | text =>
    cases h
    exact forced_of_suits rfl trivial
  | percent | quantity | decimal => exact forced_of_ofText rfl h

theorem Forced.prepared (h : Forced type cs v) : Forced type cs v.prepared where
  typeOf_iff := by rw [typeOf_prepared, h.typeOf_iff]
  unit_kept hnot := by
    obtain ⟨amount, unit, rfl, hunit⟩ := h.unit_kept hnot
    exact ⟨amount, unit, rfl, hunit⟩

end

/-- A type that is asked for is the type of what is read from a text just if the text suits the type; this holds of what
a predicate with a type of its own compares with, too. -/
theorem forced_type (type : ValueType) (s : String) :
    (∀ v, parse (.plain (.text s)) (some type) = .ok v → Forced type (Text.trimChars s.toList) v) ∧
    ∀ (kind : PredicateKind) (entries : List (String × Document)) (p : Predicate),
      Predicate.parse kind (.object entries) = .ok p →
      Document.entry? "value_type" entries = some (.text type.name) →
      ∀ key w, (key, w) ∈ p.comparands → Document.entry? key entries = some (.text s) →
        p.type = some type ∧ Forced type (Text.trimChars s.toList) w := by
  refine ⟨fun v h => forced_of_parseDocument h, fun kind entries p h htype key w hw hkey => ?_⟩
  obtain ⟨hptype, v, hv, rfl⟩ := Predicate.read_of_mem_comparands h htype hw
  rw [hkey] at hv
  exact ⟨hptype, (forced_of_parseDocument hv).prepared⟩

/-- The text `60` for a decimal, by itself and in a predicate. -/
theorem forced_type_sixty :
    let entries := [("target", .text "lamp"), ("value", .text "60"), ("value_type", .text "decimal")]
    let v : Value := .plain (.number (Number.ofWhole (Binary64.ofInt 60)))
    let p : Predicate := { target := .text "lamp", kind := .is, value := v, type := some .decimal }
    parse (.plain (.text "60")) (some .decimal) = .ok v ∧ Predicate.parse .is (.object entries) = .ok p ∧
      Suits .decimal (Text.trimChars "60".toList) ∧ v.typeOf = .ok (some .decimal) ∧ p.type = some .decimal ∧
      p.value.typeOf = .ok (some .decimal) := by
  intro entries v p
  have htrimmed : Text.trimChars "60".toList = ['6', '0'] := by decide +kernel
  have hread : Measure.read? ['6', '0'] = some ⟨Binary64.ofInt 60, []⟩ := by decide +kernel
  have hinteger : (Binary64.ofInt 60).isInteger = true := by decide +kernel
  have hparse : parse (.plain (.text "60")) (some .decimal) = .ok v := by
    rw [parse_text_of_read? (by rfl) htrimmed (by nofun) hread]
    exact congrArg Except.ok (ofMeasure_of_isInteger (fun _ _ _ => hinteger) (by decide))
  have hpredicate : Predicate.parse .is (.object entries) = .ok p := by
    change parse (.plain (.text "60")) (some .decimal) >>= (Predicate.make _ _ · .absent _) = _
    rw [hparse]
    rfl
  have hsuits : Suits .decimal (Text.trimChars "60".toList) := htrimmed ▸ (Measure.hasUnit_of_read? hread).1
  obtain ⟨hvalue, hcompares⟩ := forced_type .decimal "60"
  have hp := hcompares .is entries p hpredicate rfl "value" v (List.mem_singleton_self _) rfl
  exact ⟨hparse, hpredicate, hsuits, (hvalue v hparse).typeOf_iff.mpr hsuits, hp.1, hp.2.typeOf_iff.mpr hsuits⟩

/-- The text `60%` for a decimal is a percentage. -/
theorem percentage_for_decimal :
    let v : Value := .quantity (.real (Binary64.ofInt 60)) "%"
    parse (.plain (.text "60%")) (some .decimal) = .ok v ∧ v.typeOf = .ok (some .percent) ∧
      v.typeOf ≠ .ok (some .decimal) := by
  intro v
  have htrimmed : Text.trimChars "60%".toList = ['6', '0', '%'] := by decide +kernel
  have hread : Measure.read? ['6', '0', '%'] = some ⟨Binary64.ofInt 60, ['%']⟩ := by decide +kernel
  have hparse : parse (.plain (.text "60%")) (some .decimal) = .ok v := by
    have hunit : (⟨Binary64.ofInt 60, ['%']⟩ : Measure).unit ≠ [] := nofun
    rw [parse_text_of_read? (by rfl) htrimmed (by nofun) hread, ofMeasure_of_unit hunit (by nofun)]
  refine ⟨hparse, rfl, ?_⟩
  rw [show v.typeOf = .ok (some .percent) from rfl]
  nofun

end Value
end Domotics
