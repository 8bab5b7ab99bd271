import Domotics.Text
import Mathlib.Data.List.Basic

/-!
Cutting a text at a separator. The parts are the texts without the separator that make up the text with the separator
between them. A text that is cut only at the last separator falls in two.
-/

namespace Domotics.Text

theorem splitChars_eq_splitOn (sep : Char) (cs : List Char) : splitChars sep cs = cs.splitOn sep := by
  induction cs with
  | nil => simp [List.splitOn_eq_splitOnP]
  | cons c rest ih =>
    rw [splitChars, List.splitOn_cons_eq_if_modifyHead, ← ih]
    obtain ⟨part, parts, hparts⟩ := List.exists_cons_of_ne_nil (splitChars_ne_nil sep rest)
    simp [hparts]

theorem not_mem_of_mem_splitChars {sep : Char} {cs part : List Char} (h : part ∈ splitChars sep cs) :
    sep ∉ part := by
  induction cs generalizing part with
  | nil => simp_all
  | cons c rest ih =>
    obtain ⟨first, parts, hparts⟩ := List.exists_cons_of_ne_nil (splitChars_ne_nil sep rest)
    rw [hparts] at ih
    have hothers : ∀ p ∈ parts, sep ∉ p := fun p hp => ih (List.mem_cons_of_mem first hp)
    rw [splitChars, hparts] at h
    split_ifs at h with hc
    · rcases List.mem_cons.mp h with rfl | h
      · exact List.not_mem_nil
      · exact ih h
    · rcases List.mem_cons.mp h with rfl | h
      · exact List.not_mem_cons_of_ne_of_not_mem (Ne.symm hc) (ih (List.mem_cons_self ..))
      · exact hothers part h

theorem splitChars_intercalate {sep : Char} {parts : List (List Char)} (hne : parts ≠ [])
    (hfree : ∀ part ∈ parts, sep ∉ part) : splitChars sep ([sep].intercalate parts) = parts := by
  rw [splitChars_eq_splitOn, List.splitOn_intercalate sep hfree hne]

theorem forall_mem_intercalate {p : Char → Prop} {sep : Char} {parts : List (List Char)} (hsep : p sep)
    (h : ∀ part ∈ parts, ∀ c ∈ part, p c) : ∀ c ∈ [sep].intercalate parts, p c := by
  induction parts with
  | nil => simp
  | cons part rest ih =>
    obtain ⟨hpart, hrest⟩ := List.forall_mem_cons.mp h
    cases rest with
    | nil => simpa using hpart
    | cons next rest =>
      rw [List.intercalate_cons_cons, List.forall_mem_append, List.forall_mem_append]
      exact ⟨⟨hpart, by simpa using hsep⟩, ih hrest⟩

/-- The parts of a text are the texts without the separator that make it up with the separator between them. -/
theorem split_eq_iff {sep : Char} {s : String} {parts : List String} :
    split sep s = parts ↔ parts ≠ [] ∧ (∀ p ∈ parts, sep ∉ p.toList) ∧
      s.toList = [sep].intercalate (parts.map String.toList) := by
  constructor
  · rintro rfl
    refine ⟨by simp [split, splitChars_ne_nil], fun p hp => ?_, ?_⟩
    · obtain ⟨part, hpart, rfl⟩ := List.mem_map.mp hp
      simpa using not_mem_of_mem_splitChars hpart
    · simp [split, splitChars_eq_splitOn, Function.comp_def]
  · rintro ⟨hne, hfree, hs⟩
    rw [split, splitChars_eq_splitOn, hs, List.splitOn_intercalate sep (by simpa using hfree) (by simpa using hne)]
    simp [Function.comp_def]

theorem cutChars_singleton_eq_some_iff {sep : Char} {cs before after : List Char} :
    cutChars [sep] cs = some (before, after) ↔ cs = before ++ sep :: after ∧ sep ∉ before := by
  induction cs generalizing before with
  | nil => simp [cutChars]
  | cons c rest ih =>
    rw [cutChars]
    by_cases hc : sep = c
    · subst hc
      cases before with
      | nil => simp
      | cons b before => simpa using fun heq _ hne => absurd heq hne
    · cases before with
      | nil => simp [hc, Ne.symm hc]
      | cons b before =>
        simp [hc, ih]
        grind

theorem cutLast_eq_some_iff {sep : Char} {s first last : String} :
    cutLast sep s = some (first, last) ↔ s.toList = first.toList ++ sep :: last.toList ∧ sep ∉ last.toList := by
  have hreverse : s.toList = first.toList ++ sep :: last.toList ↔
      s.toList.reverse = last.toList.reverse ++ sep :: first.toList.reverse := by
    rw [← List.reverse_inj]
    simp
  rw [hreverse, ← List.mem_reverse, ← cutChars_singleton_eq_some_iff, cutLast]
  constructor
  · intro h
    split at h
    · next before after hsome =>
      cases h
      simpa using hsome
    · cases h
  · intro h
    simp [h]

end Domotics.Text
