import Domotics.Proofs.Value.Type

/-!
Whole numbers in a text. The text of an integer is read as the floating-point number next to the integer, and that number
is taken for an exact integer again. An integer that is given as a number stays exact, so the two agree just on the
integers that a floating-point number can be.
-/

namespace Domotics

open Character

namespace Text

theorem toList_toString (n : Int) : (toString n).toList =
    if n < 0 then '-' :: (⟨n.natAbs, 0⟩ : Numeral).chars else (⟨n.natAbs, 0⟩ : Numeral).chars := by
  have hchars : (⟨n.natAbs, 0⟩ : Numeral).chars = Nat.toDigits 10 n.natAbs := rfl
  rw [Int.toString_eq_repr, Int.repr_eq_if, hchars]
  by_cases hn : n < 0
  · have hnot : ¬ 0 ≤ n := Int.not_le.mpr hn
    have habs : (-n).toNat = n.natAbs := by omega
    rw [if_pos hn, if_neg hnot, String.toList_append, Nat.toList_repr, habs]
    rfl
  · have habs : n.toNat = n.natAbs := by omega
    rw [if_neg hn, if_pos (Int.not_lt.mp hn), Nat.toList_repr, habs]

theorem toNat_of_mem_toString {n : Int} {c : Char} (h : c ∈ (toString n).toList) :
    c = '-' ∨ 48 ≤ c.toNat ∧ c.toNat ≤ 57 := by
  rw [toList_toString] at h
  split at h
  · rcases List.mem_cons.mp h with rfl | hmem
    · exact .inl rfl
    · exact .inr (Numeral.toNat_of_mem _ hmem)
  · exact .inr (Numeral.toNat_of_mem _ h)

theorem isBlank_of_mem_toString {n : Int} {c : Char} (h : c ∈ (toString n).toList) : isBlank c = false := by
  rcases toNat_of_mem_toString h with rfl | hdigit
  · decide +kernel
  · exact not_isBlank_of_range (by omega) (by omega)

theorem toString_ne_nil (n : Int) : (toString n).toList ≠ [] := by
  rw [toList_toString]
  split
  · nofun
  · exact Numeral.chars_ne_nil _

end Text

namespace Measure

theorem readUnsigned?_chars (n : Int) :
    readUnsigned? (n < 0) (⟨n.natAbs, 0⟩ : Text.Numeral).chars = some ⟨Binary64.ofInt n, []⟩ := by
  have hread : readUnsigned? (n < 0) ((⟨n.natAbs, 0⟩ : Text.Numeral).chars ++ []) =
      withUnit? (amountOf (n < 0) (⟨n.natAbs, 0⟩ : Text.Numeral).chars []) [] :=
    readUnsigned?_whole (isRun_chars _) nofun
  rwa [List.append_nil, amountOf_chars] at hread

theorem read?_toString (n : Int) : read? (toString n).toList = some ⟨Binary64.ofInt n, []⟩ := by
  have hread := readUnsigned?_chars n
  rw [Text.toList_toString]
  by_cases hn : n < 0
  · rw [if_pos hn, read?_minus]
    rwa [decide_eq_true hn] at hread
  · have hhead : (⟨n.natAbs, 0⟩ : Text.Numeral).chars.head? ≠ some '-' := fun hminus =>
      absurd (Text.Numeral.isDigit_of_mem _ (List.mem_of_mem_head? hminus)) (by decide)
    rw [if_neg hn, read?_of_head hhead]
    rwa [decide_eq_false hn] at hread

end Measure

namespace Value

variable {type : Option ValueType}

theorem name_of_stateOfName? {s : String} {v : Value} (h : stateOfName? s = some v) :
    s ∈ ["ON", "OFF", "OPEN", "CLOSED", "ONLINE", "OFFLINE", "UNKNOWN"] := by
  rw [stateOfName?, OnOff.ofName?, OpenClosed.ofName?, Status.ofName?] at h
  split at h
  · next state hstate =>
    have hname := List.find?_some hstate
    rw [← beq_iff_eq.mp hname]
    cases state <;> decide
  split at h
  · next state hstate =>
    have hname := List.find?_some hstate
    rw [← beq_iff_eq.mp hname]
    cases state <;> decide
  · obtain ⟨state, hstate, -⟩ := Option.map_eq_some_iff.mp h
    have hname := List.find?_some hstate
    rw [← beq_iff_eq.mp hname]
    cases state <;> decide

theorem stateOfName?_eq_none {cs : List Char} {c : Char} (hc : c ∈ cs) (hletter : c.toNat < 65) :
    stateOfName? (String.ofList cs) = none := by
  rw [Option.eq_none_iff_forall_ne_some]
  intro v h
  have hnames : ["ON", "OFF", "OPEN", "CLOSED", "ONLINE", "OFFLINE", "UNKNOWN"].all
      (fun name => name.toList.all fun c => 65 ≤ c.toNat) = true := by decide +kernel
  have hname := List.all_eq_true.mp hnames _ (name_of_stateOfName? h)
  have hc := of_decide_eq_true (List.all_eq_true.mp hname c (by rwa [String.toList_ofList]))
  omega

theorem parse_toString (n : Int) (htype : type = none ∨ type = some .decimal) :
    parse (.plain (.text (toString n))) type = .ok (.plain (.number (Number.ofWhole (Binary64.ofInt n)))) := by
  have hmeasured : measured type = true := by
    rcases htype with rfl | rfl <;> rfl
  have hplain : type ≠ some .percent ∧ type ≠ some .quantity := by
    rcases htype with rfl | rfl <;> decide
  have hsmall {c : Char} (hc : c ∈ (toString n).toList) : c.toNat < 65 := by
    rcases Text.toNat_of_mem_toString hc with rfl | hdigit
    · decide
    · omega
  have htrimmed : Text.trimChars (toString n).toList = (toString n).toList :=
    (Text.trimmed_of_forall fun c => Text.isBlank_of_mem_toString).trimChars
  have hupper : upperCase (toString n).toList = (toString n).toList :=
    upperCase_eq_self fun c hc => Nat.lt_of_lt_of_le (hsmall hc) (by decide)
  have hstate : stateOfName? (String.ofList (upperCase (toString n).toList)) = none := by
    obtain ⟨c, rest, hcs⟩ := List.exists_cons_of_ne_nil (Text.toString_ne_nil n)
    have hc : c ∈ (toString n).toList := hcs ▸ List.mem_cons_self ..
    rw [hupper]
    exact stateOfName?_eq_none hc (hsmall hc)
  have hpoint : (toString n).toList.contains '.' = false := by
    rw [List.contains_eq_mem, decide_eq_false_iff_not]
    intro hmem
    rcases Text.toNat_of_mem_toString hmem with heq | hdigit
    · cases heq
    · exact absurd hdigit (by decide)
  rw [parse_text_of_read? hmeasured htrimmed (fun _ => hstate) (Measure.read?_toString n), hpoint,
    ofMeasure_of_isInteger (Binary64.isInteger_ofInt n) hplain]

/-- The text of an integer is read as a number, and so is the integer itself, which stays exact. The two are equal just
if a floating-point number can be the integer. -/
theorem whole_number_in_text (n : Int) (htype : type = none ∨ type = some .decimal) :
    let read := Number.ofWhole (Binary64.ofInt n)
    parse (.plain (.text (toString n))) type = .ok (.plain (.number read)) ∧
      parse (.plain (.int n)) type = .ok (.plain (.int n)) ∧
      ((Value.plain (.number read)).equals (.plain (.int n)) = true ↔ Binary64.Holds n) := by
  refine ⟨parse_toString n htype, ?_, Number.ofWhole_ofInt_equals_iff n⟩
  rcases htype with rfl | rfl <;> rfl

/-- The negative of the fifty-third power of two is read as itself. -/
theorem whole_number_in_text_negative :
    let n : Int := -9007199254740992
    let read := Number.ofWhole (Binary64.ofInt n)
    (none : Option ValueType) = none ∧ parse (.plain (.text (toString n))) none = .ok (.plain (.number read)) ∧
      parse (.plain (.int n)) none = .ok (.plain (.int n)) ∧
      (Value.plain (.number read)).equals (.plain (.int n)) = true := by
  intro n read
  obtain ⟨htext, hnumber, hequals⟩ := whole_number_in_text n (.inl rfl)
  exact ⟨rfl, htext, hnumber, hequals.mpr (Binary64.holds_of_le (by decide))⟩

/-- The next odd number is read as its even neighbour. -/
theorem odd_number_in_text :
    parse (.plain (.text (toString (9007199254740993 : Int)))) none = .ok (.plain (.int 9007199254740992)) ∧
      parse (.plain (.int 9007199254740993)) none = .ok (.plain (.int 9007199254740993)) ∧
      (Value.plain (.int 9007199254740992)).equals (.plain (.int 9007199254740993)) = false := by
  have hread : Number.ofWhole (Binary64.ofInt 9007199254740993) = .int 9007199254740992 := by decide +kernel
  refine ⟨?_, rfl, rfl⟩
  rw [parse_toString 9007199254740993 (.inl rfl), hread]

end Value

end Domotics
