import Domotics.Proofs.Value.Type

/-!
What has been read stays as it is. A value that comes out of the reader is of a form that the reader leaves alone if the
same type is asked for again, or none: a state or an amount with a unit, a number that is no percentage yet only where no
percentage is asked for, or a trimmed text that is still no state and no measure.
-/

namespace Domotics.Value

open Character

def Settled (type : Option ValueType) (v : Value) : Prop := parse v type = .ok v

variable {type : Option ValueType} {cs : List Char} {v : Value}

theorem settled_number (x : Number) (hmeasured : measured type = true) (hpercent : type ≠ some .percent) :
    Settled type (.plain (.number x)) := by
  match type, hmeasured with
  | none, _ | some .quantity, _ | some .decimal, _ => rfl
  | some .percent, _ => exact absurd rfl hpercent

theorem settled_of_stateOfName? {s : String} (h : stateOfName? s = some v) : Settled type v := by
  rw [stateOfName?] at h
  split at h
  · cases h
    rfl
  split at h
  · cases h
    rfl
  · obtain ⟨state, -, rfl⟩ := Option.map_eq_some_iff.mp h
    rfl

theorem settled_ofMeasure (m : Measure) (hasPoint : Bool) (hmeasured : measured type = true) :
    Settled type (ofMeasure m hasPoint type) := by
  by_cases hpercent : m.unit = ['%'] ∨ type = some .percent
  · rw [ofMeasure, if_pos hpercent]
    rfl
  have hnumber (x : Number) : Settled type (.plain (.number x)) :=
    settled_number x hmeasured (not_or.mp hpercent).2
  rw [ofMeasure, if_neg hpercent]
  split
  · rfl
  split
  · rfl
  split
  · split
    · exact hnumber _
    · exact hnumber _
  · exact hnumber _

theorem OfText.settled (h : OfText cs type v) (hmeasured : measured type = true) (htrimmed : Text.trimChars cs = cs) :
    Settled type v := by
  cases h with
  | state hstate => exact settled_of_stateOfName? hstate
  | measure => exact settled_ofMeasure _ _ hmeasured
  | text hstate hread htype =>
    rw [Settled, parse_text_of_measured _ hmeasured, String.toList_ofList, htrimmed, ofText_eq_ok_iff]
    exact .text hstate hread htype

theorem settled_of_parseDocument {d : Document} (h : parseDocument d type = .ok v) : Settled type v := by
  rw [parseDocument.eq_def] at h
  split at h
  · cases h
    rfl
  · cases h
    rfl
  split at h
  · cases h
    rfl
  · obtain ⟨state, rfl⟩ := exists_of_member h
    rfl
  · obtain ⟨state, rfl⟩ := exists_of_member h
    rfl
  · obtain ⟨state, rfl⟩ := exists_of_member h
    rfl
  next htext honOff hopenClosed hstatus =>
  -- Every type that is left takes numbers as they are, and measures of other documents.
  have hmeasured : measured type = true := by
    match type with
    | none | some .percent | some .quantity | some .decimal => rfl
    | some .text => exact absurd rfl htext
    | some .onOff => exact absurd rfl honOff
    | some .openClosed => exact absurd rfl hopenClosed
    | some .status => exact absurd rfl hstatus
  split at h
  · split at h
    · rw [percent] at h
      split at h
      · cases h
        rfl
      · cases h
    · next hpercent =>
      cases h
      exact settled_number _ hmeasured hpercent
  · exact (ofText_eq_ok_iff.mp h).settled hmeasured (Text.trimChars_trimChars _)

/-- Reading a value that has been read gives the same value, if the same type is asked for. -/
theorem parse_of_parse {raw : Value} (h : parse raw type = .ok v) : parse v type = .ok v := by
  cases raw with
  | onOff | openClosed | status | quantity =>
    cases h
    rfl
  | plain d => exact settled_of_parseDocument h

/-- The name of a floor, with blanks around it, is no measure, and the blanks are gone. -/
theorem parse_of_parse_floor :
    parse (.plain (.text " 2nd floor ")) none = .ok (.plain (.text "2nd floor")) ∧
      parse (.plain (.text "2nd floor")) none = .ok (.plain (.text "2nd floor")) := by
  have htrimmed : Text.trimChars " 2nd floor ".toList = "2nd floor".toList := by decide +kernel
  have hstate : stateOfName? (String.ofList (upperCase "2nd floor".toList)) = none :=
    Option.isNone_iff_eq_none.mp (by decide +kernel)
  have hread : Measure.read? "2nd floor".toList = none := by decide +kernel
  have hparse : parse (.plain (.text " 2nd floor ")) none = .ok (.plain (.text "2nd floor")) := by
    rw [parse_text_of_measured _ rfl, htrimmed]
    exact ofText_eq_ok_iff.mpr (.text (fun _ => hstate) hread (by decide))
  exact ⟨hparse, parse_of_parse hparse⟩

end Domotics.Value
