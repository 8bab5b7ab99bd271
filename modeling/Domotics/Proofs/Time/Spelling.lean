import Domotics.Proofs.Text.Split
import Domotics.Proofs.Value.Measure

/-!
How whole seconds are written. A number of seconds, a number with a unit of time and a time on a clock go through
floating-point numbers or through exact integers, and all of them give the same duration up to the longest one. A part of
a time on a clock has a greatest number of digits, zeros in front included, and a number with a unit has none.
-/

namespace Domotics

open Binary64 Character

namespace Duration

inductive TimeUnit where
  | s | sec | m | min | h | d

namespace TimeUnit

def name : TimeUnit → List Char
  | s => ['s']
  | sec => ['s', 'e', 'c']
  | m => ['m']
  | min => ['m', 'i', 'n']
  | h => ['h']
  | d => ['d']

def seconds : TimeUnit → Nat
  | s | sec => 1
  | m | min => 60
  | h => 3600
  | d => 86400

theorem unitMicros?_name (u : TimeUnit) : unitMicros? u.name = some (u.seconds * perSecond) := by
  cases u <;> rfl

theorem one_le_seconds (u : TimeUnit) : 1 ≤ u.seconds := by
  cases u <;> decide

theorem small_of_mem_name (u : TimeUnit) : ∀ c ∈ u.name, 97 ≤ c.toNat ∧ c.toNat < 123 := by
  cases u <;> simp [name]

end TimeUnit

def clockParts (h m : Text.Numeral) (s : Option Text.Numeral) : List Text.Numeral := h :: m :: s.toList

def clockChars (h m : Text.Numeral) (s : Option Text.Numeral) : List Char :=
  [':'].intercalate ((clockParts h m s).map Text.Numeral.chars)

/-- The ways to write a duration of whole seconds: as an integer, as a floating-point number, with a unit of time, or as
hours and minutes, maybe with seconds. -/
inductive Spelling where
  | integer (n : Nat)
  | real (n : Nat)
  | withUnit (n : Text.Numeral) (u : TimeUnit)
  | clock (h m : Text.Numeral) (s : Option Text.Numeral)

namespace Spelling

def seconds : Spelling → Nat
  | integer n => n
  | real n => n
  | withUnit n u => n.value * u.seconds
  | clock h m s => 3600 * h.value + 60 * m.value + (s.map (·.value)).getD 0

/-- A time on a clock has no part with more digits than an integer in a text may have. -/
def Fits : Spelling → Prop
  | clock h m s => ∀ n ∈ clockParts h m s, n.chars.length ≤ Text.maxDigits
  | _ => True

/-- What is written, with something before and after it if it is a text. -/
def document (before after : List Char) : Spelling → Document
  | integer n => .int n
  | real n => .number (.real (ofInt n))
  | withUnit n u => .text (String.ofList (before ++ (n.chars ++ u.name) ++ after))
  | clock h m s => .text (String.ofList (before ++ clockChars h m s ++ after))

end Spelling

/-- A duration that can be represented has few enough seconds for a floating-point number to count them. -/
theorem holds_of_representable {n k : Nat} (hk : 1 ≤ k) (h : (ofSeconds (n * k : Nat)).Representable) : Holds n := by
  have hle : n ≤ n * k := Nat.le_mul_of_pos_right n hk
  have hdays : ((n * k : Nat) * perSecond : Int) / perDay ≤ maxDays := h.2
  refine holds_of_le ?_
  rw [Int.natAbs_natCast]
  generalize n * k = total at *
  simp only [perSecond, perDay, maxDays] at hdays
  omega

theorem roundMicros_zero (whole : Int) (s : Bool) : roundMicros whole (.finite s 0) = whole := by
  have hnearest : nearest (whole * one).natAbs one = whole.natAbs := by
    rw [Int.natAbs_mul, Int.natAbs_natCast, Nat.mul_comm, nearest_mul pos_one]
  have hone : (0 : Int) < one := Int.natCast_pos.mpr pos_one
  have hsign : whole * one < 0 ↔ whole < 0 :=
    ⟨fun h => Int.not_le.mp fun hle => Int.not_le.mpr h (Int.mul_nonneg hle (Int.le_of_lt hone)),
      fun h => Int.mul_neg_of_neg_of_pos h hone⟩
  simp only [roundMicros, signedUnits_zero, Int.add_zero, hnearest, hsign]
  split
  · omega
  · omega

theorem microsOfReal_mul_one (factor n : Nat) : microsOfReal factor false (n * one) = n * factor := by
  have hrest : fraction false (n * one) = .finite false 0 := by
    rw [fraction, Nat.mul_mod_left]
  have hwhole : truncate false (n * one) = n := truncate_mul_one false n
  rw [microsOfReal, hrest, hwhole]
  rcases hfactor : ofInt factor with ⟨s, units⟩ | s | _
  · rw [mul, ofUnits, Nat.zero_mul, roundUnits_zero, if_pos limit_pos, roundMicros_zero]
  · rfl
  · rfl

theorem ofReal_ofInt {n k : Nat} (hk : 1 ≤ k) (h : (ofSeconds (n * k : Nat)).Representable) :
    ofReal (k * perSecond) (ofInt n) = .ok (ofSeconds (n * k : Nat)) := by
  have hsign : decide ((n : Int) < 0) = false := decide_eq_false (Int.not_lt.mpr (Int.natCast_nonneg n))
  have hmicros : (n * (k * perSecond : Nat) : Int) = (n * k : Nat) * perSecond := by
    push_cast
    rw [Int.mul_assoc]
  rw [(holds_of_representable hk h).ofInt, hsign, Int.natAbs_natCast, ofReal, microsOfReal_mul_one, check_eq_ok_iff, hmicros]
  exact ⟨rfl, h⟩

section

variable {before after cs : List Char}

def IsPlain (c : Char) : Prop := 48 ≤ c.toNat ∧ c.toNat < 65 ∨ 97 ≤ c.toNat ∧ c.toNat < 123

theorem lowerCase_trimChars (hne : cs ≠ []) (hcs : ∀ c ∈ cs, IsPlain c) (hbefore : ∀ c ∈ before, isBlank c = true)
    (hafter : ∀ c ∈ after, isBlank c = true) : lowerCase (Text.trimChars (before ++ cs ++ after)) = cs := by
  have hblank : ∀ c ∈ cs, isBlank c = false := by
    intro c hc
    refine not_isBlank_of_range ?_ ?_
    · rcases hcs c hc with h | h <;> omega
    · rcases hcs c hc with h | h <;> omega
  rw [(Text.trimmed_of_forall hblank).trimChars_append hne hbefore hafter]
  refine lowerCase_eq_self fun c hc => ?_
  rcases hcs c hc with h | h <;> omega

end

section

variable {run places rest : List Char} (hrun : Measure.IsRun run)

include hrun

theorem readWithUnit?_append (hrest : ∀ c ∈ rest.head?, isDecimalDigit c = false ∧ c ≠ '.') :
    readWithUnit? (run ++ rest) =
      (unitMicros? (rest.dropWhile isBlank)).map fun factor => (Measure.amountOf false run [], factor) := by
  have hdigits : ∀ c ∈ rest.head?, isDecimalDigit c = false := fun c hc => (hrest c hc).1
  have hpoint : rest.head? ≠ some '.' := fun heq => (hrest '.' heq).2 rfl
  have hplaces : ∀ more, rest ≠ '.' :: more := fun more heq => hpoint (congrArg List.head? heq)
  have hread : ¬ (run = [] ∨ rest.head? = some '.') := not_or.mpr ⟨hrun.ne_nil, hpoint⟩
  rw [readWithUnit?]
  -- The branch without decimal places is taken because of `hplaces`.
  simp only [Text.takeWhile_run hrun.digits hdigits, Text.dropWhile_run hrun.digits hdigits, and_true, if_neg hread]
  rfl

theorem readWithUnit?_decimal (hplaces : Measure.IsRun places) (hrest : ∀ c ∈ rest.head?, isDecimalDigit c = false) :
    readWithUnit? (run ++ '.' :: (places ++ rest)) =
      (unitMicros? (rest.dropWhile isBlank)).map fun factor => (Measure.amountOf false run places, factor) := by
  have hpoint : ∀ c ∈ ('.' :: (places ++ rest)).head?, isDecimalDigit c = false := by
    rintro c hc
    cases hc
    rfl
  have hread : ¬ (run = [] ∨ ('.' :: (places ++ rest)).head? = some '.' ∧ places = []) :=
    not_or.mpr ⟨hrun.ne_nil, fun h => hplaces.ne_nil h.2⟩
  rw [readWithUnit?]
  simp only [Text.takeWhile_run hrun.digits hpoint, Text.dropWhile_run hrun.digits hpoint,
    Text.takeWhile_run hplaces.digits hrest, Text.dropWhile_run hplaces.digits hrest, if_neg hread]
  rfl

/-- Digits before a colon are no number with a unit: nothing that begins with a colon is a unit. -/
theorem readWithUnit?_colon : readWithUnit? (run ++ ':' :: rest) = none := by
  have hcolon : isBlank ':' = false := by decide +kernel
  rw [readWithUnit?_append hrun, List.dropWhile_cons_of_neg (by rw [hcolon]; decide)]
  · simp [unitMicros?]
  · rintro c hc
    cases hc
    decide

end

section

variable {run places blanks : List Char} {u : TimeUnit} (hrun : Measure.IsRun run)
  (hblanks : ∀ c ∈ blanks, isBlank c = true)

include hblanks

theorem head?_append_name : ∀ c ∈ (blanks ++ u.name).head?, isDecimalDigit c = false ∧ c ≠ '.' := by
  refine Measure.head?_blanks_append hblanks fun c hc => ?_
  cases u <;> cases hc <;> decide

theorem unitMicros?_append_name :
    unitMicros? ((blanks ++ u.name).dropWhile isBlank) = some (u.seconds * perSecond) := by
  have hname : ∀ c ∈ u.name.head?, isBlank c = false := by
    intro c hc
    cases u <;> cases hc <;> decide +kernel
  rw [Text.dropWhile_run hblanks hname, u.unitMicros?_name]

include hrun

theorem readWithUnit?_whole :
    readWithUnit? (run ++ (blanks ++ u.name)) = some (Measure.amountOf false run [], u.seconds * perSecond) := by
  rw [readWithUnit?_append hrun (head?_append_name hblanks), unitMicros?_append_name hblanks]
  rfl

theorem readWithUnit?_places (hplaces : Measure.IsRun places) :
    readWithUnit? (run ++ '.' :: (places ++ (blanks ++ u.name))) =
      some (Measure.amountOf false run places, u.seconds * perSecond) := by
  rw [readWithUnit?_decimal hrun hplaces fun c hc => (head?_append_name hblanks c hc).1, unitMicros?_append_name hblanks]
  rfl

end

theorem readWithUnit?_chars (n : Text.Numeral) (u : TimeUnit) :
    readWithUnit? (n.chars ++ u.name) = some (ofInt n.value, u.seconds * perSecond) := by
  have hblanks : ∀ c ∈ ([] : List Char), isBlank c = true := nofun
  rw [← ofRatio_natCast, ← Measure.amountOf_chars]
  exact readWithUnit?_whole (Measure.isRun_chars n) hblanks

theorem splitChars_clockChars (h m : Text.Numeral) (s : Option Text.Numeral) :
    Text.splitChars ':' (clockChars h m s) = (clockParts h m s).map Text.Numeral.chars := by
  refine Text.splitChars_intercalate nofun fun part hpart hmem => ?_
  obtain ⟨n, -, rfl⟩ := List.mem_map.mp hpart
  exact absurd (n.isDigit_of_mem hmem) (by decide)

theorem isPlain_of_mem_chars {n : Text.Numeral} {c : Char} (h : c ∈ n.chars) : IsPlain c := by
  have hrange := n.toNat_of_mem h
  exact .inl ⟨hrange.1, by omega⟩

section

variable {before after : List Char} (hbefore : ∀ c ∈ before, isBlank c = true) (hafter : ∀ c ∈ after, isBlank c = true)

include hbefore hafter

theorem parse_withUnit (n : Text.Numeral) (u : TimeUnit) :
    parse ((Spelling.withUnit n u).document before after) = ofReal (u.seconds * perSecond) (ofInt n.value) := by
  have hplain : ∀ c ∈ n.chars ++ u.name, IsPlain c := by
    intro c hc
    rcases List.mem_append.mp hc with hdigit | hletter
    · exact isPlain_of_mem_chars hdigit
    · exact .inr (u.small_of_mem_name c hletter)
  have hne : n.chars ++ u.name ≠ [] := List.append_ne_nil_of_left_ne_nil n.chars_ne_nil _
  have hread := lowerCase_trimChars hne hplain hbefore hafter
  simp only [Spelling.document, parse, Document.asText, String.toList_ofList, hread, readWithUnit?_chars]

theorem parse_clock (h m : Text.Numeral) (s : Option Text.Numeral) :
    parse ((Spelling.clock h m s).document before after) = (do
      let hours ← Text.readInteger h.chars
      let minutes ← Text.readInteger m.chars
      match s with
      | none => ofParts hours minutes 0
      | some s => do ofParts hours minutes (← Text.readInteger s.chars)) := by
  have hplain : ∀ c ∈ clockChars h m s, IsPlain c := by
    refine Text.forall_mem_intercalate (.inl (by decide)) fun part hpart c hc => ?_
    obtain ⟨n, -, rfl⟩ := List.mem_map.mp hpart
    exact isPlain_of_mem_chars hc
  have hne : clockChars h m s ≠ [] := List.append_ne_nil_of_right_ne_nil _ nofun
  have hread := lowerCase_trimChars hne hplain hbefore hafter
  have hdigits : ((clockParts h m s).map Text.Numeral.chars).all Text.isDigits = true := by
    simp [Text.Numeral.isDigits_chars]
  have hunit : readWithUnit? (clockChars h m s) = none := readWithUnit?_colon (Measure.isRun_chars h)
  simp only [Spelling.document, parse, Document.asText, String.toList_ofList, hread, hunit, splitChars_clockChars,
    hdigits, if_true]
  cases s with
  | none => rfl
  | some s => rfl

end

/-- Hours, minutes and seconds are as long as the seconds that they are together. -/
theorem ofParts_eq (h m s : Nat) : ofParts h m s = check (ofSeconds (3600 * h + 60 * m + s : Nat)) := by
  have hsum : (h * 60 + m) * 60 + s = 3600 * h + 60 * m + s := by omega
  rw [ofParts, hsum]

theorem ofParts_seconds_eq_ok (hours minutes : Nat) (s : Option Text.Numeral) {d : Duration} :
    (match s with
      | none => ofParts hours minutes 0
      | some s => do ofParts hours minutes (← Text.readInteger s.chars)) = .ok d ↔
      (∀ n ∈ s, n.chars.length ≤ Text.maxDigits) ∧ ofParts hours minutes ((s.map (·.value)).getD 0) = .ok d := by
  cases s with
  | none => simp
  | some s => simpa using Text.Numeral.readInteger_bind_eq_ok s

/-- However whole seconds are written, they are read as a duration of that length if it can be represented; only a time
on a clock must not have too many digits in a part. -/
theorem parse_spelling (sp : Spelling) {before after : List Char} (hbefore : ∀ c ∈ before, isBlank c = true)
    (hafter : ∀ c ∈ after, isBlank c = true) (h : (ofSeconds sp.seconds).Representable) :
    parse (sp.document before after) = .ok (ofSeconds sp.seconds) ↔ sp.Fits := by
  cases sp with
  | integer n =>
    have hparse : parse (.int n) = check (ofSeconds n) := rfl
    exact iff_of_true (hparse.trans ((check_eq_ok_iff _ _).mpr ⟨rfl, h⟩)) trivial
  | real n =>
    have hread := ofReal_ofInt (Nat.le_refl 1) (n := n) (by rwa [Nat.mul_one])
    rw [Nat.one_mul, Nat.mul_one] at hread
    exact iff_of_true hread trivial
  | withUnit n u => exact iff_of_true ((parse_withUnit hbefore hafter n u).trans (ofReal_ofInt u.one_le_seconds h)) trivial
  | clock hours minutes s =>
    rw [parse_clock hbefore hafter, Text.Numeral.readInteger_bind_eq_ok, Text.Numeral.readInteger_bind_eq_ok,
      ofParts_seconds_eq_ok, ofParts_eq, check_eq_ok_iff]
    have hfits : (Spelling.clock hours minutes s).Fits ↔ hours.chars.length ≤ Text.maxDigits ∧
        minutes.chars.length ≤ Text.maxDigits ∧ ∀ n ∈ s, n.chars.length ≤ Text.maxDigits := by
      simp [Spelling.Fits, clockParts]
    rw [hfits]
    exact ⟨fun ⟨hh, hm, hs, _⟩ => ⟨hh, hm, hs⟩, fun ⟨hh, hm, hs⟩ => ⟨hh, hm, hs, rfl, h⟩⟩

/-- A time on a clock with zeros in front and blanks around it, and the longest duration of whole days. -/
theorem parse_spelling_longest :
    let time := Spelling.clock ⟨1, 1⟩ ⟨30, 0⟩ (some ⟨5, 1⟩)
    let longest := Spelling.withUnit ⟨999999999, 0⟩ .d
    time.document [' '] [' '] = .text " 01:30:05 " ∧ longest.document [] [] = .text "999999999d" ∧
      (∀ c ∈ [' '], isBlank c = true) ∧ (∀ c ∈ ([] : List Char), isBlank c = true) ∧
      (ofSeconds time.seconds).Representable ∧ (ofSeconds longest.seconds).Representable ∧
      parse (.text " 01:30:05 ") = .ok (ofSeconds 5405) ∧ parse (.text "999999999d") = .ok (ofSeconds 86399999913600) := by
  intro time longest
  have hchars : [' '] ++ clockChars ⟨1, 1⟩ ⟨30, 0⟩ (some ⟨5, 1⟩) ++ [' '] = " 01:30:05 ".toList := by decide +kernel
  have hchars' : [] ++ ((⟨999999999, 0⟩ : Text.Numeral).chars ++ TimeUnit.d.name) ++ [] = "999999999d".toList := by
    decide +kernel
  have htime : time.document [' '] [' '] = .text " 01:30:05 " := by
    rw [Spelling.document, hchars, String.ofList_toList]
  have hlongest : longest.document [] [] = .text "999999999d" := by
    rw [Spelling.document, hchars', String.ofList_toList]
  have hblank : ∀ c ∈ [' '], isBlank c = true := List.forall_mem_singleton.mpr (by decide +kernel)
  have hnone : ∀ c ∈ ([] : List Char), isBlank c = true := nofun
  have htime' : (ofSeconds time.seconds).Representable := by decide
  have hlongest' : (ofSeconds longest.seconds).Representable := by decide
  have hfits : time.Fits := by
    change ∀ n ∈ ([⟨1, 1⟩, ⟨30, 0⟩, ⟨5, 1⟩] : List Text.Numeral), n.chars.length ≤ Text.maxDigits
    decide
  have hparse := (parse_spelling time hblank hblank htime').mpr hfits
  have hparse' := (parse_spelling longest hnone hnone hlongest').mpr trivial
  rw [htime] at hparse
  rw [hlongest] at hparse'
  exact ⟨htime, hlongest, hblank, hnone, htime', hlongest', hparse, hparse'⟩

theorem clockChars_zeros (zeros : Nat) :
    clockChars ⟨1, 0⟩ ⟨0, zeros⟩ none = "1:".toList ++ List.replicate (zeros + 1) '0' := by
  have hone : (⟨1, 0⟩ : Text.Numeral).chars = ['1'] := by rfl
  have hzeros : (⟨0, zeros⟩ : Text.Numeral).chars = List.replicate (zeros + 1) '0' := by
    rw [List.replicate_succ', Text.Numeral.chars, Nat.toDigits_zero]
  simp [clockChars, clockParts, hone, hzeros]

/-- One hour with so many zeros for no minutes that they are not read. -/
theorem too_many_zeros :
    let text := Document.text (String.ofList ("1:".toList ++ List.replicate 4301 '0'))
    let time := Spelling.clock ⟨1, 0⟩ ⟨0, 4300⟩ none
    time.document [] [] = text ∧ time.seconds = 3600 ∧ (ofSeconds 3600).Representable ∧
      parse text = Result.invalid (.integerLength 4301) ∧ parse text ≠ .ok (ofSeconds 3600) := by
  intro text time
  have hnone : ∀ c ∈ ([] : List Char), isBlank c = true := nofun
  have htext : time.document [] [] = text := by
    rw [Spelling.document, clockChars_zeros, List.nil_append, List.append_nil]
  have hlength : (⟨0, 4300⟩ : Text.Numeral).chars.length = 4301 := by
    rw [Text.Numeral.chars, List.length_append, List.length_replicate]
    rfl
  have hparse : parse text = Result.invalid (.integerLength 4301) := by
    rw [← htext, parse_clock hnone hnone, Text.Numeral.readInteger_chars _ (by decide), Result.ok_bind,
      Text.Numeral.readInteger_of_long _ (by rw [hlength]; decide), hlength]
    rfl
  refine ⟨htext, rfl, by decide, hparse, ?_⟩
  rw [hparse]
  intro heq
  cases heq

end Duration
end Domotics
