import Domotics.Text
import Mathlib.Data.List.Basic

/-!
Runs of characters, and trimming. A trimmed text has no blank at its ends; it is what is left of itself between any
blanks, so that trimming it once more changes nothing.
-/

namespace Domotics.Text

open Character

section

variable {p : Char → Bool} {run rest : List Char} (hrun : ∀ c ∈ run, p c = true)
  (hrest : ∀ c ∈ rest.head?, p c = false)

include hrun hrest

theorem dropWhile_run : (run ++ rest).dropWhile p = rest := by
  rw [List.dropWhile_append_of_pos hrun]
  cases rest with
  | nil => rfl
  | cons c rest => exact List.dropWhile_cons_of_neg (Bool.not_eq_true _ ▸ hrest c rfl)

theorem takeWhile_run : (run ++ rest).takeWhile p = run := by
  rw [List.takeWhile_append_of_pos hrun]
  cases rest with
  | nil => simp
  | cons c rest => simp [hrest c rfl]

end

theorem head?_dropWhile (p : Char → Bool) (cs : List Char) : ∀ c ∈ (cs.dropWhile p).head?, p c = false := by
  intro c hc
  have hhead := List.head?_dropWhile_not p cs
  rwa [Option.mem_def.mp hc] at hhead

structure Trimmed (cs : List Char) : Prop where
  first : ∀ c ∈ cs.head?, isBlank c = false
  last : ∀ c ∈ cs.getLast?, isBlank c = false

variable {cs before after : List Char}

theorem trimmed_of_forall (h : ∀ c ∈ cs, isBlank c = false) : Trimmed cs :=
  ⟨fun c hc => h c (List.mem_of_mem_head? hc), fun c hc => h c (List.mem_of_mem_getLast? hc)⟩

theorem trimmed_trimChars (cs : List Char) : Trimmed (trimChars cs) where
  first c hc := by
    -- What is left after the end was cut begins like what was there before.
    have hprefix : trimChars cs <+: cs.dropWhile isBlank := by
      rw [trimChars, ← List.reverse_suffix, List.reverse_reverse]
      exact List.dropWhile_suffix isBlank
    obtain ⟨rest, hrest⟩ := hprefix
    refine head?_dropWhile isBlank cs c ?_
    rw [← hrest, List.head?_append, Option.mem_def.mp hc]
    rfl
  last c hc := by
    rw [trimChars, List.getLast?_reverse] at hc
    exact head?_dropWhile isBlank _ c hc

/-- Blanks around a trimmed text are all that trimming takes away. -/
theorem Trimmed.trimChars_append (h : Trimmed cs) (hne : cs ≠ []) (hbefore : ∀ c ∈ before, isBlank c = true)
    (hafter : ∀ c ∈ after, isBlank c = true) : trimChars (before ++ cs ++ after) = cs := by
  have hfront : (before ++ cs ++ after).dropWhile isBlank = cs ++ after := by
    rw [List.append_assoc]
    refine dropWhile_run hbefore fun c hc => h.first c ?_
    rwa [List.head?_append_of_ne_nil _ hne] at hc
  have hback : (cs ++ after).reverse.dropWhile isBlank = cs.reverse := by
    rw [List.reverse_append]
    refine dropWhile_run (fun c hc => hafter c (List.mem_reverse.mp hc)) fun c hc => h.last c ?_
    rwa [List.head?_reverse] at hc
  rw [trimChars, hfront, hback, List.reverse_reverse]

theorem Trimmed.trimChars (h : Trimmed cs) : trimChars cs = cs := by
  by_cases hne : cs = []
  · rw [hne]
    rfl
  · have hblank : ∀ c ∈ ([] : List Char), isBlank c = true := nofun
    simpa using h.trimChars_append hne hblank hblank

theorem trimChars_trimChars (cs : List Char) : trimChars (trimChars cs) = trimChars cs :=
  (trimmed_trimChars cs).trimChars

end Domotics.Text
