import Domotics.Proofs.Time.Seconds
import Domotics.Proofs.Time.Spelling

/-!
What a text says about the length of a duration. A text says a number of a unit of time, or hours and minutes, maybe
with seconds. What it says is read if it can be represented, and is out of range otherwise; a text that says nothing is
no duration. What a text says is never negative.
-/

namespace Domotics

open Character

namespace Binary64

theorem isUnsigned_ofDecimal (digits : Nat) (power : Int) : (ofDecimal false digits power).IsUnsigned := by
  rw [ofDecimal]
  split_ifs
  · exact .finite 0
  · exact .infinite
  · exact .finite 0
  · exact isUnsigned_ofRatio _ _
  · exact isUnsigned_ofRatio _ _

end Binary64

namespace Text

/-- Digits that are an integer: they are decimal, and not more than an integer may have. -/
structure IsInteger (cs : List Char) : Prop extends Measure.IsRun cs where
  short : cs.length ≤ maxDigits

def integerValue (cs : List Char) : Nat := ofDigits (cs.filterMap decimalDigit?)

theorem IsInteger.isDigits {cs : List Char} (h : IsInteger cs) : Text.isDigits cs = true := by
  rw [Text.isDigits, Bool.and_eq_true, List.all_eq_true]
  exact ⟨by simpa using h.ne_nil, fun c hc => isDigit_of_isDecimalDigit (h.digits c hc)⟩

theorem readInteger_eq_ok_iff_isInteger {cs : List Char} {n : Nat} :
    readInteger cs = .ok n ↔ IsInteger cs ∧ n = integerValue cs := by
  rw [readInteger_eq_ok_iff]
  exact ⟨fun ⟨⟨hne, hdigits⟩, hshort, hn⟩ => ⟨⟨⟨hne, hdigits⟩, hshort⟩, hn⟩,
    fun ⟨⟨⟨hne, hdigits⟩, hshort⟩, hn⟩ => ⟨⟨hne, hdigits⟩, hshort, hn⟩⟩

end Text

namespace Duration

open Binary64

/-- The duration of a number of units; nothing if the number is not finite. -/
def extent (factor : Nat) : Binary64 → Option Duration
  | .finite negative units => some ⟨microsOfReal factor negative units⟩
  | _ => none

theorem extent_nonneg {factor : Nat} {x : Binary64} (hx : x.IsUnsigned) : ∀ d ∈ extent factor x, zero ≤ d := by
  intro d hd
  cases hx with
  | finite units =>
    have hmicros : d.micros = microsOfReal factor false units := by
      rw [extent, Option.mem_some] at hd
      rw [← hd]
    rw [le_def, hmicros]
    exact microsOfReal_nonneg factor (.inl rfl)
  | infinite => cases hd

def accept : Option Duration → Result Duration
  | some d => check d
  | none => Result.misuse .infiniteReal

theorem ofReal_eq_accept {factor : Nat} {x : Binary64} (hx : x.IsUnsigned) :
    ofReal factor x = accept (extent factor x) := by
  cases hx with
  | finite units => rfl
  | infinite => rfl

theorem or_invalid_of_readInteger {p : Prop} {cs : List Char} {f : Nat → Result Duration}
    (h : Text.IsInteger cs → p ∨ ∃ cause, f (Text.integerValue cs) = .error (.invalid cause)) :
    p ∨ ∃ cause, (Text.readInteger cs >>= f) = .error (.invalid cause) := by
  cases hread : Text.readInteger cs with
  | ok n =>
    obtain ⟨hinteger, rfl⟩ := Text.readInteger_eq_ok_iff_isInteger.mp hread
    exact h hinteger
  | error fault =>
    obtain ⟨cause, rfl⟩ := Text.invalid_of_readInteger hread
    exact .inr ⟨cause, rfl⟩

/-- What a text in small letters says: a number of a unit, with decimal places or without, or a time on a clock. -/
inductive Says : List Char → Option Duration → Prop
  | whole {run blanks : List Char} {u : TimeUnit} (hrun : Measure.IsRun run)
      (hblanks : ∀ c ∈ blanks, isBlank c = true) :
      Says (run ++ (blanks ++ u.name)) (extent (u.seconds * perSecond) (Measure.amountOf false run []))
  | decimal {run places blanks : List Char} {u : TimeUnit} (hrun : Measure.IsRun run) (hplaces : Measure.IsRun places)
      (hblanks : ∀ c ∈ blanks, isBlank c = true) :
      Says (run ++ '.' :: (places ++ (blanks ++ u.name)))
        (extent (u.seconds * perSecond) (Measure.amountOf false run places))
  | clock {h m : List Char} {s : Option (List Char)} (hparts : ∀ part ∈ h :: m :: s.toList, Text.IsInteger part) :
      Says ([':'].intercalate (h :: m :: s.toList))
        (some (ofSeconds
          (3600 * Text.integerValue h + 60 * Text.integerValue m + (s.map Text.integerValue).getD 0 : Nat)))

theorem unitMicros?_eq_some {name : List Char} {factor : Nat} (h : unitMicros? name = some factor) :
    ∃ u : TimeUnit, name = u.name ∧ factor = u.seconds * perSecond := by
  rw [unitMicros?] at h
  split_ifs at h with hs hm hh hd <;> cases h
  · rcases hs with rfl | rfl
    · exact ⟨.s, rfl, rfl⟩
    · exact ⟨.sec, rfl, rfl⟩
  · rcases hm with rfl | rfl
    · exact ⟨.m, rfl, rfl⟩
    · exact ⟨.min, rfl, rfl⟩
  · exact ⟨.h, hh, rfl⟩
  · exact ⟨.d, hd, rfl⟩

theorem exists_unit {rest : List Char} {factor : Nat} (h : unitMicros? (rest.dropWhile isBlank) = some factor) :
    ∃ (blanks : List Char) (u : TimeUnit), (∀ c ∈ blanks, isBlank c = true) ∧ rest = blanks ++ u.name ∧
      factor = u.seconds * perSecond := by
  obtain ⟨u, hname, hfactor⟩ := unitMicros?_eq_some h
  exact ⟨rest.takeWhile isBlank, u, fun c hc => List.mem_takeWhile_imp hc,
    by rw [← hname, List.takeWhile_append_dropWhile], hfactor⟩

theorem says_of_readWithUnit? {cs : List Char} {amount : Binary64} {factor : Nat}
    (h : readWithUnit? cs = some (amount, factor)) : Says cs (extent factor amount) := by
  obtain ⟨run, rest, hspan⟩ : ∃ run rest, Measure.spanDigits cs = (run, rest) := ⟨_, _, rfl⟩
  obtain ⟨rfl, hrun⟩ := Measure.spanDigits_eq hspan
  obtain ⟨htake, hdrop⟩ := Prod.mk.inj hspan
  simp only [readWithUnit?, htake, hdrop] at h
  by_cases hpoint : rest.head? = some '.'
  · obtain ⟨more, rfl⟩ := List.head?_eq_some_iff.mp hpoint
    obtain ⟨places, after, hspan'⟩ : ∃ places after, Measure.spanDigits more = (places, after) := ⟨_, _, rfl⟩
    obtain ⟨rfl, hplaces⟩ := Measure.spanDigits_eq hspan'
    obtain ⟨htake', hdrop'⟩ := Prod.mk.inj hspan'
    simp only [htake', hdrop', hpoint, true_and] at h
    split at h
    · cases h
    next hne =>
    obtain ⟨hrun_ne, hplaces_ne⟩ := not_or.mp hne
    obtain ⟨factor, hfactor, heq⟩ := Option.map_eq_some_iff.mp h
    cases heq
    obtain ⟨blanks, u, hblanks, rfl, rfl⟩ := exists_unit hfactor
    exact .decimal (hrun hrun_ne) (hplaces hplaces_ne) hblanks
  · have hplaces : ∀ more, rest ≠ '.' :: more := fun more heq => hpoint (congrArg List.head? heq)
    -- The branch without decimal places is taken because of `hplaces`.
    simp only [hpoint, false_and, or_false] at h
    split at h
    · cases h
    next hne =>
    obtain ⟨factor, hfactor, heq⟩ := Option.map_eq_some_iff.mp h
    cases heq
    obtain ⟨blanks, u, hblanks, rfl, rfl⟩ := exists_unit hfactor
    exact .whole (hrun hne) hblanks

theorem Says.nonneg {cs : List Char} {t : Option Duration} (h : Says cs t) : ∀ d ∈ t, zero ≤ d := by
  intro d hd
  cases h with
  | whole hrun hblanks => exact extent_nonneg (isUnsigned_ofDecimal _ _) d hd
  | decimal hrun hplaces hblanks => exact extent_nonneg (isUnsigned_ofDecimal _ _) d hd
  | clock hparts =>
    cases hd
    exact Int.mul_nonneg (Int.natCast_nonneg _) (Int.natCast_nonneg _)

section

variable {word : String} {t : Option Duration}

theorem parse_of_says (h : Says (lowerCase (Text.trimChars word.toList)) t) : parse (.text word) = accept t := by
  generalize hcs : lowerCase (Text.trimChars word.toList) = cs at h
  simp only [parse, Document.asText, hcs]
  cases h with
  | whole hrun hblanks =>
    rw [readWithUnit?_whole hrun hblanks]
    exact ofReal_eq_accept (isUnsigned_ofDecimal _ _)
  | decimal hrun hplaces hblanks =>
    rw [readWithUnit?_places hrun hblanks hplaces]
    exact ofReal_eq_accept (isUnsigned_ofDecimal _ _)
  | @clock h m s hparts =>
    have hfree : ∀ part ∈ h :: m :: s.toList, ':' ∉ part := fun part hpart hmem =>
      absurd ((hparts part hpart).digits ':' hmem) (by decide)
    have hdigits : (h :: m :: s.toList).all Text.isDigits = true :=
      List.all_eq_true.mpr fun part hpart => (hparts part hpart).isDigits
    have hread : ∀ part ∈ h :: m :: s.toList, Text.readInteger part = .ok (Text.integerValue part) :=
      fun part hpart => Text.readInteger_eq_ok_iff_isInteger.mpr ⟨hparts part hpart, rfl⟩
    have hcolon : readWithUnit? ([':'].intercalate (h :: m :: s.toList)) = none :=
      readWithUnit?_colon (hparts h (List.mem_cons_self ..)).toIsRun
    rw [hcolon, Text.splitChars_intercalate (by simp) hfree]
    simp only [hdigits, if_true]
    have hh := hread h (List.mem_cons_self ..)
    have hm := hread m (List.mem_cons_of_mem h (List.mem_cons_self ..))
    cases s with
    | none =>
      simp only [Option.toList_none]
      rw [hh, Result.ok_bind, hm, Result.ok_bind]
      exact ofParts_eq _ _ _
    | some s =>
      have hs := hread s (by simp)
      simp only [Option.toList_some]
      rw [hh, Result.ok_bind, hm, Result.ok_bind, hs, Result.ok_bind]
      exact ofParts_eq _ _ _

/-- What is read is what the text says, or it says nothing. -/
theorem says_or_invalid (word : String) :
    (∃ t, Says (lowerCase (Text.trimChars word.toList)) t) ∨ ∃ cause, parse (.text word) = .error (.invalid cause) := by
  generalize hcs : lowerCase (Text.trimChars word.toList) = cs
  simp only [parse, Document.asText, hcs]
  cases hread : readWithUnit? cs with
  | some amount => exact .inl ⟨_, says_of_readWithUnit? hread⟩
  | none =>
    have hjoin : [':'].intercalate (Text.splitChars ':' cs) = cs := by
      rw [Text.splitChars_eq_splitOn, List.intercalate_splitOn]
    simp only
    split
    · split
      · next h m hparts =>
        rw [hparts] at hjoin
        refine or_invalid_of_readInteger fun hh => or_invalid_of_readInteger fun hm => .inl ?_
        rw [← hjoin]
        exact ⟨_, .clock (s := none) (by simp [hh, hm])⟩
      · next h m s hparts =>
        rw [hparts] at hjoin
        refine or_invalid_of_readInteger fun hh => or_invalid_of_readInteger fun hm =>
          or_invalid_of_readInteger fun hs => .inl ?_
        rw [← hjoin]
        exact ⟨_, .clock (s := some s) (by simp [hh, hm, hs])⟩
      · exact .inr ⟨_, rfl⟩
    · exact .inr ⟨_, rfl⟩

end

end Duration
end Domotics
