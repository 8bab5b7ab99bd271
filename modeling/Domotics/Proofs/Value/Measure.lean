import Domotics.Proofs.Binary64.Integer
import Domotics.Proofs.Text.Numeral
import Domotics.Value.Measure

/-!
The form of a measure. What is read as a measure is a decimal numeral with a unit after it, and which unit it has, none
or the sign of percentages, can be seen from the text alone.
-/

namespace Domotics.Measure

open Character

structure IsRun (cs : List Char) : Prop where
  ne_nil : cs ≠ []
  digits : ∀ c ∈ cs, isDecimalDigit c = true

theorem isRun_chars (n : Text.Numeral) : IsRun n.chars := ⟨n.chars_ne_nil, n.isDecimalDigit_of_mem⟩

theorem amountOf_chars (negative : Bool) (n : Text.Numeral) :
    amountOf negative n.chars [] = Binary64.ofRatio negative n.value 1 := by
  rw [amountOf, List.append_nil, n.ofDigits_chars]
  exact Binary64.ofDecimal_zero negative n.value

inductive IsUnsigned : List Char → Prop
  | whole {run : List Char} (hrun : IsRun run) : IsUnsigned run
  | decimal {run places : List Char} (hrun : IsRun run) (hplaces : IsRun places) : IsUnsigned (run ++ '.' :: places)

inductive IsNumeral : List Char → Prop
  | unsigned {cs : List Char} (h : IsUnsigned cs) : IsNumeral cs
  | minus {cs : List Char} (h : IsUnsigned cs) : IsNumeral ('-' :: cs)

/-- A decimal numeral with a unit after it, and maybe blanks in between. The unit may be empty. -/
def HasUnit (cs unit : List Char) : Prop :=
  ∃ numeral blanks, IsNumeral numeral ∧ (∀ c ∈ blanks, isBlank c = true) ∧ cs = numeral ++ blanks ++ unit

theorem head?_blanks_append {blanks rest : List Char} (hblanks : ∀ c ∈ blanks, isBlank c = true)
    (hrest : ∀ c ∈ rest.head?, isDecimalDigit c = false ∧ c ≠ '.') :
    ∀ c ∈ (blanks ++ rest).head?, isDecimalDigit c = false ∧ c ≠ '.' := by
  intro c hc
  cases blanks with
  | nil => exact hrest c hc
  | cons b more =>
    have hblank : isBlank c = true := hblanks c (List.mem_of_mem_head? hc)
    constructor
    · by_contra hdigit
      rw [not_isBlank_of_isDecimalDigit (Bool.not_eq_false _ ▸ hdigit)] at hblank
      cases hblank
    · rintro rfl
      exact absurd hblank (by decide +kernel)

def readUnsigned? (negative : Bool) (cs : List Char) : Option Measure :=
  let (whole, rest) := spanDigits cs
  if whole = [] then none
  else
    let wholeOnly := withUnit? (amountOf negative whole []) rest
    match rest with
    | '.' :: more =>
      let (places, rest) := spanDigits more
      if places = [] then wholeOnly
      else match withUnit? (amountOf negative whole places) rest with
        | some m => some m
        | none => wholeOnly
    | _ => wholeOnly

theorem read?_minus (cs : List Char) : read? ('-' :: cs) = readUnsigned? true cs := rfl

theorem read?_of_head {cs : List Char} (h : cs.head? ≠ some '-') : read? cs = readUnsigned? false cs := by
  cases cs with
  | nil => rfl
  | cons c rest =>
    have hc : c ≠ '-' := fun heq => h (congrArg some heq)
    unfold read?
    split
    next hmatch =>
      split at hmatch
      · simp_all
      · cases hmatch
        rfl

section

variable {negative : Bool} {amount : Binary64} {run places rest blanks unit : List Char} {m : Measure}

theorem withUnit?_eq_some (h : withUnit? amount rest = some m) :
    isUnit m.unit = true ∧ ∃ blanks, (∀ c ∈ blanks, isBlank c = true) ∧ rest = blanks ++ m.unit := by
  rw [withUnit?] at h
  split at h
  · next hunit =>
    cases h
    exact ⟨hunit, rest.takeWhile isBlank, fun c hc => List.mem_takeWhile_imp hc,
      (List.takeWhile_append_dropWhile).symm⟩
  · cases h

theorem withUnit?_append (hblanks : ∀ c ∈ blanks, isBlank c = true) (hfirst : ∀ c ∈ unit.head?, isBlank c = false)
    (hunit : isUnit unit = true) : withUnit? amount (blanks ++ unit) = some ⟨amount, unit⟩ := by
  rw [withUnit?, Text.dropWhile_run hblanks hfirst, if_pos hunit]

theorem spanDigits_append (hrun : IsRun run) (hrest : ∀ c ∈ rest.head?, isDecimalDigit c = false) :
    spanDigits (run ++ rest) = (run, rest) := by
  rw [spanDigits, Text.takeWhile_run hrun.digits hrest, Text.dropWhile_run hrun.digits hrest]

theorem readUnsigned?_whole (hrun : IsRun run) (hrest : ∀ c ∈ rest.head?, isDecimalDigit c = false ∧ c ≠ '.') :
    readUnsigned? negative (run ++ rest) = withUnit? (amountOf negative run []) rest := by
  rw [readUnsigned?, spanDigits_append hrun fun c hc => (hrest c hc).1]
  simp only [if_neg hrun.ne_nil]
  split
  · next more hmore => exact absurd rfl (hrest '.' rfl).2
  · rfl

theorem readUnsigned?_decimal (hrun : IsRun run) (hplaces : IsRun places)
    (hrest : ∀ c ∈ rest.head?, isDecimalDigit c = false) (h : withUnit? (amountOf negative run places) rest = some m) :
    readUnsigned? negative (run ++ '.' :: (places ++ rest)) = some m := by
  have hpoint : ∀ c ∈ ('.' :: (places ++ rest)).head?, isDecimalDigit c = false := by
    rintro c hc
    cases hc
    rfl
  rw [readUnsigned?, spanDigits_append hrun hpoint]
  simp only [if_neg hrun.ne_nil, spanDigits_append hplaces hrest, if_neg hplaces.ne_nil, h]

theorem spanDigits_eq {cs : List Char} (h : spanDigits cs = (run, rest)) :
    cs = run ++ rest ∧ (run ≠ [] → IsRun run) := by
  rw [spanDigits, Prod.mk.injEq] at h
  obtain ⟨rfl, rfl⟩ := h
  exact ⟨List.takeWhile_append_dropWhile.symm, fun hne => ⟨hne, fun c hc => List.mem_takeWhile_imp hc⟩⟩

/-- What is read is a numeral with the unit that is read after it. -/
theorem form_of_readUnsigned? {cs : List Char} (h : readUnsigned? negative cs = some m) :
    isUnit m.unit = true ∧ ∃ numeral blanks, IsUnsigned numeral ∧ (∀ c ∈ blanks, isBlank c = true) ∧
      cs = numeral ++ blanks ++ m.unit := by
  rw [readUnsigned?] at h
  rcases hspan : spanDigits cs with ⟨whole, rest⟩
  obtain ⟨rfl, hrun⟩ := spanDigits_eq hspan
  simp only [hspan] at h
  split at h
  · cases h
  next hwhole =>
  -- The unit may follow the first digits at once, whatever else was tried before.
  have hwholeOnly (h : withUnit? (amountOf negative whole []) rest = some m) :
      isUnit m.unit = true ∧ ∃ numeral blanks, IsUnsigned numeral ∧ (∀ c ∈ blanks, isBlank c = true) ∧
        whole ++ rest = numeral ++ blanks ++ m.unit := by
    obtain ⟨hunit, blanks, hblanks, rfl⟩ := withUnit?_eq_some h
    exact ⟨hunit, whole, blanks, .whole (hrun hwhole), hblanks, (List.append_assoc ..).symm⟩
  split at h
  · next more =>
    rcases hspan' : spanDigits more with ⟨places, rest⟩
    obtain ⟨rfl, hplaces⟩ := spanDigits_eq hspan'
    simp only [hspan'] at h
    split at h
    · exact hwholeOnly h
    next hne =>
    split at h
    · next found hfound =>
      cases h
      obtain ⟨hunit, blanks, hblanks, rfl⟩ := withUnit?_eq_some hfound
      refine ⟨hunit, _, blanks, .decimal (hrun hwhole) (hplaces hne), hblanks, ?_⟩
      simp only [List.append_assoc, List.cons_append]
    · exact hwholeOnly h
  · exact hwholeOnly h

theorem readUnsigned?_append {numeral : List Char} (hnumeral : IsUnsigned numeral)
    (hblanks : ∀ c ∈ blanks, isBlank c = true)
    (hfirst : ∀ c ∈ unit.head?, isDecimalDigit c = false ∧ c ≠ '.' ∧ isBlank c = false) (hunit : isUnit unit = true) :
    ∃ m, readUnsigned? negative (numeral ++ (blanks ++ unit)) = some m ∧ m.unit = unit := by
  have hrest := head?_blanks_append hblanks fun c hc => ⟨(hfirst c hc).1, (hfirst c hc).2.1⟩
  have hread (amount : Binary64) : withUnit? amount (blanks ++ unit) = some ⟨amount, unit⟩ :=
    withUnit?_append hblanks (fun c hc => (hfirst c hc).2.2) hunit
  cases hnumeral with
  | whole hrun => exact ⟨_, (readUnsigned?_whole hrun hrest).trans (hread _), rfl⟩
  | decimal hrun hplaces =>
    rw [List.append_assoc]
    exact ⟨_, readUnsigned?_decimal hrun hplaces (fun c hc => (hrest c hc).1) (hread _), rfl⟩

end

theorem IsUnsigned.head?_ne_minus {cs : List Char} (h : IsUnsigned cs) (rest : List Char) :
    (cs ++ rest).head? ≠ some '-' := by
  have hrun_ne {run more : List Char} (hrun : IsRun run) : (run ++ more).head? ≠ some '-' := by
    obtain ⟨c, tail, rfl⟩ := List.exists_cons_of_ne_nil hrun.ne_nil
    rintro heq
    cases heq
    exact absurd (hrun.digits '-' (List.mem_cons_self ..)) (by decide)
  cases h with
  | whole hrun => exact hrun_ne hrun
  | decimal hrun _ =>
    rw [List.append_assoc]
    exact hrun_ne hrun

variable {cs unit : List Char} {m : Measure}

theorem hasUnit_of_read? (h : read? cs = some m) : HasUnit cs m.unit ∧ isUnit m.unit = true := by
  by_cases hminus : cs.head? = some '-'
  · obtain ⟨rest, rfl⟩ := List.head?_eq_some_iff.mp hminus
    obtain ⟨hunit, numeral, blanks, hnumeral, hblanks, rfl⟩ := form_of_readUnsigned? h
    exact ⟨⟨_, blanks, .minus hnumeral, hblanks, rfl⟩, hunit⟩
  · rw [read?_of_head hminus] at h
    obtain ⟨hunit, numeral, blanks, hnumeral, hblanks, rfl⟩ := form_of_readUnsigned? h
    exact ⟨⟨_, blanks, .unsigned hnumeral, hblanks, rfl⟩, hunit⟩

theorem read?_of_hasUnit (h : HasUnit cs unit) (hunit : unit = [] ∨ unit = ['%']) :
    ∃ m, read? cs = some m ∧ m.unit = unit := by
  obtain ⟨numeral, blanks, hnumeral, hblanks, rfl⟩ := h
  have hfirst : ∀ c ∈ unit.head?, isDecimalDigit c = false ∧ c ≠ '.' ∧ isBlank c = false := by
    rcases hunit with rfl | rfl
    · nofun
    · rintro c hc
      cases hc
      decide +kernel
  have hword : isUnit unit = true := by
    rcases hunit with rfl | rfl
    · rfl
    · decide +kernel
  rw [List.append_assoc]
  cases hnumeral with
  | unsigned h =>
    rw [read?_of_head (h.head?_ne_minus _)]
    exact readUnsigned?_append h hblanks hfirst hword
  | minus h => exact readUnsigned?_append h hblanks hfirst hword

theorem hasUnit_iff (h : read? cs = some m) (hunit : unit = [] ∨ unit = ['%']) : HasUnit cs unit ↔ m.unit = unit := by
  constructor
  · intro hcs
    obtain ⟨found, hfound, rfl⟩ := read?_of_hasUnit hcs hunit
    rw [h] at hfound
    cases hfound
    rfl
  · rintro rfl
    exact (hasUnit_of_read? h).1

end Domotics.Measure
