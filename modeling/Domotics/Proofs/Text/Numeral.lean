import Domotics.Proofs.Result
import Domotics.Proofs.Text.Trim
import Domotics.Time.DurationReader
import Mathlib.Data.List.TakeWhile

/-!
Numerals. A number written in decimal digits, with any zeros in front, is read as that number; but a text of too many
digits is not read as an integer, and neither is one with a digit mark. Digits are no blanks and have no case.
-/

namespace Domotics

namespace Character

theorem exists_start_of_isDecimalDigit {c : Char} (h : isDecimalDigit c = true) :
    ∃ start ∈ zeroDigits.toList, start ≤ c.toNat ∧ c.toNat < start + 10 := by
  rw [isDecimalDigit, decimalDigit?] at h
  split at h
  · split at h
    · next hrange => exact ⟨48, by decide, hrange.1, Nat.lt_succ_of_le hrange.2⟩
    · cases h
  · rw [Option.isSome_map, Option.isSome_iff_exists] at h
    obtain ⟨start, hstart⟩ := h
    have hrange := Array.find?_some hstart
    rw [Bool.and_eq_true, decide_eq_true_eq, decide_eq_true_eq] at hrange
    exact ⟨start, Array.mem_toList_iff.mpr (Array.mem_of_find?_eq_some hstart), hrange⟩

def digitSpans : List (Nat × Nat) := zeroDigits.toList.map (fun start => (start, start + 9)) ++ digitMarkSpans.toList

theorem exists_span_of_isDigit {c : Char} (h : isDigit c = true) :
    ∃ span ∈ digitSpans, span.1 ≤ c.toNat ∧ c.toNat ≤ span.2 := by
  rw [isDigit, Bool.or_eq_true] at h
  rcases h with hdecimal | hmark
  · obtain ⟨start, hstart, hle, hlt⟩ := exists_start_of_isDecimalDigit hdecimal
    exact ⟨(start, start + 9), List.mem_append_left _ (List.mem_map_of_mem hstart), hle, Nat.le_of_lt_succ hlt⟩
  · rw [inSpans, ← Array.any_toList, List.any_eq_true] at hmark
    obtain ⟨span, hspan, hrange⟩ := hmark
    rw [Bool.and_eq_true, decide_eq_true_eq, decide_eq_true_eq] at hrange
    exact ⟨span, List.mem_append_right _ hspan, hrange⟩

def apart (spans others : List (Nat × Nat)) : Bool :=
  spans.all fun span => others.all fun other => Nat.blt span.2 other.1 || Nat.blt other.2 span.1

theorem not_mem_of_apart {spans others : List (Nat × Nat)} (h : apart spans others = true) {span other : Nat × Nat}
    (hspan : span ∈ spans) (hother : other ∈ others) {code : Nat} (hcode : span.1 ≤ code ∧ code ≤ span.2) :
    ¬(other.1 ≤ code ∧ code ≤ other.2) := by
  have hpair := List.all_eq_true.mp (List.all_eq_true.mp h span hspan) other hother
  rw [Bool.or_eq_true, Nat.blt_eq, Nat.blt_eq] at hpair
  omega

theorem not_isBlank_of_apart {spans : List (Nat × Nat)} (h : apart spans blankSpans.toList = true) {span : Nat × Nat}
    (hspan : span ∈ spans) {c : Char} (hc : span.1 ≤ c.toNat ∧ c.toNat ≤ span.2) : isBlank c = false := by
  rw [isBlank, inSpans, ← Array.any_toList, List.any_eq_false]
  intro blank hblank
  have hnot := not_mem_of_apart h hspan hblank hc
  rw [Bool.and_eq_true, decide_eq_true_eq, decide_eq_true_eq]
  exact hnot

theorem not_isBlank_of_isDecimalDigit {c : Char} (h : isDecimalDigit c = true) : isBlank c = false := by
  obtain ⟨span, hspan, hrange⟩ := exists_span_of_isDigit (isDigit_of_isDecimalDigit h)
  exact not_isBlank_of_apart (by decide +kernel) hspan hrange

theorem not_isBlank_of_range {c : Char} (hle : 33 ≤ c.toNat) (hlt : c.toNat < 128) : isBlank c = false :=
  not_isBlank_of_apart (by decide +kernel) (List.mem_singleton_self (33, 127)) ⟨hle, Nat.le_of_lt_succ hlt⟩

theorem toUpper_of_isDigit {c : Char} (h : isDigit c = true) : toUpper c = [c] := by
  have hletters : apart digitSpans [(97, 122)] = true := by decide +kernel
  have hruns : apart digitSpans (upperRuns.toList.map fun run => (run.first, run.last)) = true := by decide +kernel
  have hexpansions : apart digitSpans (upperExpansions.toList.map fun entry => (entry.1, entry.1)) = true := by
    decide +kernel
  obtain ⟨span, hspan, hrange⟩ := exists_span_of_isDigit h
  have hrun : upperRuns.find? (·.covers c.toNat) = none := by
    rw [Array.find?_eq_none]
    intro run hrun
    have hapart := not_mem_of_apart hruns hspan (List.mem_map_of_mem (Array.mem_toList_iff.mpr hrun)) hrange
    simp only [CaseRun.covers, Bool.and_eq_true, decide_eq_true_eq]
    exact fun hcovers => hapart hcovers.1
  have hexpansion : upperExpansions.find? (·.1 == c.toNat) = none := by
    rw [Array.find?_eq_none]
    intro expansion hexpansion
    have hapart := not_mem_of_apart hexpansions hspan (List.mem_map_of_mem (Array.mem_toList_iff.mpr hexpansion)) hrange
    rw [beq_iff_eq]
    exact fun heq => hapart ⟨Nat.le_of_eq heq, Nat.le_of_eq heq.symm⟩
  have hletter : ¬(97 ≤ c.toNat ∧ c.toNat ≤ 122) :=
    not_mem_of_apart hletters hspan (List.mem_singleton_self _) hrange
  rw [toUpper, if_neg hletter, hexpansion, mapRun, hrun, ite_self]

theorem upperCase_of_isDigit {cs : List Char} (h : ∀ c ∈ cs, isDigit c = true) : upperCase cs = cs := by
  rw [upperCase, List.flatMap_congr fun c hc => toUpper_of_isDigit (h c hc), List.flatMap_singleton']

section

variable {c : Char} (h : c.isDigit = true)

include h

theorem toNat_of_isDigit : 48 ≤ c.toNat ∧ c.toNat ≤ 57 := by
  simpa [Char.isDigit, UInt32.le_iff_toNat_le] using h

theorem decimalDigit?_of_isDigit : decimalDigit? c = some (c.toNat - 48) := by
  have hrange := toNat_of_isDigit h
  rw [decimalDigit?, if_pos (by omega), if_pos hrange]

theorem isDecimalDigit_of_isDigit : isDecimalDigit c = true := by
  rw [isDecimalDigit, decimalDigit?_of_isDigit h]
  rfl

end

theorem upperCase_eq_self {cs : List Char} (h : ∀ c ∈ cs, c.toNat < 97) : upperCase cs = cs := by
  rw [upperCase]
  induction cs with
  | nil => rfl
  | cons c rest ih =>
    have hc : c.toNat < 97 := h c (List.mem_cons_self ..)
    have hupper : toUpper c = [c] := by
      rw [toUpper, if_pos (by omega), if_neg (by omega)]
    rw [List.flatMap_cons, hupper, ih fun d hd => h d (List.mem_cons_of_mem c hd)]
    rfl

theorem lowerCase_eq_self {cs : List Char} (h : ∀ c ∈ cs, c.toNat < 128 ∧ ¬ (65 ≤ c.toNat ∧ c.toNat ≤ 90)) :
    lowerCase cs = cs := by
  suffices hafter : ∀ before, lowerCaseAfter before cs = cs from hafter []
  induction cs with
  | nil => exact fun _ => rfl
  | cons c rest ih =>
    intro before
    obtain ⟨hascii, hcapital⟩ := h c (List.mem_cons_self ..)
    have hlower : toLower c = [c] := by
      rw [toLower, if_pos hascii, if_neg hcapital]
    rw [lowerCaseAfter, if_neg (by omega), hlower, ih fun d hd => h d (List.mem_cons_of_mem c hd)]
    rfl

end Character

namespace Text

open Character

section

variable {cs : List Char} {n : Nat} {fault : Fault}

theorem mapM_decimalDigit? (h : ∀ c ∈ cs, isDecimalDigit c = true) :
    cs.mapM decimalDigit? = some (cs.filterMap decimalDigit?) := by
  induction cs with
  | nil => rfl
  | cons c rest ih =>
    obtain ⟨digit, hdigit⟩ := Option.isSome_iff_exists.mp (h c (List.mem_cons_self ..))
    rw [List.mapM_cons, hdigit, ih fun d hd => h d (List.mem_cons_of_mem c hd), List.filterMap_cons_some hdigit]
    rfl

theorem isDecimalDigit_of_mapM {digits : List Nat} (h : cs.mapM decimalDigit? = some digits) :
    ∀ c ∈ cs, isDecimalDigit c = true := by
  induction cs generalizing digits with
  | nil => nofun
  | cons c rest ih =>
    rw [List.mapM_cons] at h
    obtain ⟨digit, hdigit, h⟩ := Option.bind_eq_some_iff.mp h
    obtain ⟨others, hothers, -⟩ := Option.bind_eq_some_iff.mp h
    exact List.forall_mem_cons.mpr ⟨Option.isSome_of_mem hdigit, ih hothers⟩

theorem ofDigits_filterMap (h : ∀ c ∈ cs, c.isDigit = true) :
    ofDigits (cs.filterMap decimalDigit?) = Nat.ofDigitChars 10 cs 0 := by
  have hvalues : cs.filterMap decimalDigit? = cs.map fun c => c.toNat - 48 := by
    rw [← List.filterMap_eq_map]
    exact List.filterMap_congr fun c hc => decimalDigit?_of_isDigit (h c hc)
  rw [hvalues, ofDigits, List.foldl_map, Nat.ofDigitChars_eq_foldl]
  rfl

/-- Decimal digits of any script are an integer, as long as an integer may have so many of them; nothing else is. -/
theorem readInteger_eq_ok_iff : readInteger cs = .ok n ↔ (cs ≠ [] ∧ ∀ c ∈ cs, isDecimalDigit c = true) ∧
    cs.length ≤ maxDigits ∧ n = ofDigits (cs.filterMap decimalDigit?) := by
  constructor
  · intro h
    rw [readInteger] at h
    split at h
    · cases h
    next hshort =>
    split at h
    · next value hvalue =>
      cases h
      rw [numeral?] at hvalue
      split at hvalue
      · cases hvalue
      next hne =>
      obtain ⟨digits, hdigits, rfl⟩ := Option.map_eq_some_iff.mp hvalue
      have hall := isDecimalDigit_of_mapM hdigits
      rw [List.takeWhile_eq_self_iff.mpr hall, Nat.not_lt] at hshort
      rw [mapM_decimalDigit? hall] at hdigits
      exact ⟨⟨hne, hall⟩, hshort, congrArg ofDigits (Option.some.inj hdigits).symm⟩
    · cases h
  · rintro ⟨⟨hne, hall⟩, hshort, rfl⟩
    rw [readInteger, List.takeWhile_eq_self_iff.mpr hall, if_neg (Nat.not_lt.mpr hshort), numeral?, if_neg hne,
      mapM_decimalDigit? hall]
    rfl

theorem invalid_of_readInteger (h : readInteger cs = .error fault) : ∃ cause, fault = .invalid cause := by
  rw [readInteger] at h
  split at h
  · exact ⟨_, (Except.error.inj h).symm⟩
  · split at h
    · cases h
    · exact ⟨_, (Except.error.inj h).symm⟩

end

/-- A number in decimal digits, with zeros in front. -/
structure Numeral where
  value : Nat
  zeros : Nat := 0

namespace Numeral

def chars (n : Numeral) : List Char := List.replicate n.zeros '0' ++ Nat.toDigits 10 n.value

variable (n : Numeral)

theorem isDigit_of_mem {c : Char} (h : c ∈ n.chars) : c.isDigit = true := by
  rcases List.mem_append.mp h with hzero | hdigit
  · rw [List.eq_of_mem_replicate hzero]
    rfl
  · exact Nat.isDigit_of_mem_toDigits (by decide) (by decide) hdigit

theorem toNat_of_mem {c : Char} (h : c ∈ n.chars) : 48 ≤ c.toNat ∧ c.toNat ≤ 57 :=
  toNat_of_isDigit (n.isDigit_of_mem h)

theorem isDecimalDigit_of_mem : ∀ c ∈ n.chars, isDecimalDigit c = true :=
  fun _ hc => isDecimalDigit_of_isDigit (n.isDigit_of_mem hc)

theorem takeWhile_chars : n.chars.takeWhile isDecimalDigit = n.chars :=
  List.takeWhile_eq_self_iff.mpr n.isDecimalDigit_of_mem

theorem chars_ne_nil : n.chars ≠ [] := fun h => Nat.toDigits_ne_nil (List.append_eq_nil_iff.mp h).2

theorem ofDigits_chars : ofDigits (n.chars.filterMap decimalDigit?) = n.value := by
  rw [ofDigits_filterMap fun _ => n.isDigit_of_mem, chars, Nat.ofDigitChars_append, Nat.ofDigitChars_replicate_zero,
    Nat.mul_zero, Nat.ofDigitChars_ten_toDigits]

/-- A numeral is read as its number, as long as an integer may have so many digits. -/
theorem readInteger_chars (h : n.chars.length ≤ maxDigits) : readInteger n.chars = .ok n.value :=
  readInteger_eq_ok_iff.mpr ⟨⟨n.chars_ne_nil, n.isDecimalDigit_of_mem⟩, h, n.ofDigits_chars.symm⟩

theorem readInteger_of_long (h : maxDigits < n.chars.length) :
    readInteger n.chars = Result.invalid (.integerLength n.chars.length) := by
  rw [readInteger, n.takeWhile_chars, if_pos h]

theorem readInteger_bind_eq_ok {α : Type} {f : Nat → Result α} {a : α} :
    (readInteger n.chars >>= f) = .ok a ↔ n.chars.length ≤ maxDigits ∧ f n.value = .ok a := by
  rcases Nat.lt_or_ge maxDigits n.chars.length with hlong | hshort
  · rw [n.readInteger_of_long hlong]
    exact iff_of_false nofun fun h => absurd h.1 (Nat.not_le.mpr hlong)
  · rw [n.readInteger_chars hshort, Result.ok_bind]
    exact (and_iff_right hshort).symm

theorem isDigits_chars : isDigits n.chars = true := by
  rw [isDigits, Bool.and_eq_true, List.all_eq_true]
  refine ⟨by simpa using n.chars_ne_nil, fun c hc => isDigit_of_isDecimalDigit (n.isDecimalDigit_of_mem c hc)⟩

end Numeral
end Text
end Domotics
