import Domotics.Proofs.Schedule.Cover
import Domotics.Proofs.Time.Extent

/-!
What is read as a bound. Anything that is no bound is a mistake in the schedule, with two exceptions: a text of digits
that are no integer, and an offset from an anchor that is out of the range of durations. A time of day that is read
lies within the day.
-/

namespace Domotics.Bound

open Character Duration

structure IsOffset (cs : List Char) (negative : Bool) (word : List Char) : Prop where
  text : ∃ before after, (∀ c ∈ before, isBlank c = true) ∧ (∀ c ∈ after, isBlank c = true) ∧
    cs = before ++ (if negative then '-' else '+') :: (after ++ word)
  ne_nil : word ≠ []
  free : ∀ c ∈ word, isBlank c = false

def IsAnchored (cs : List Char) (a : Anchor) (negative : Bool) (word : List Char) : Prop :=
  ∃ rest, cs = a.name.toList ++ rest ∧ IsOffset rest negative word

theorem IsAnchored.free {cs word : List Char} {a : Anchor} {negative : Bool} (h : IsAnchored cs a negative word) :
    ∀ c ∈ word, isBlank c = false := by
  obtain ⟨rest, _, hoffset⟩ := h
  exact hoffset.free

/-- The characters of a document that is read as a text. An integer is a time of day at once. -/
def IsWritten (raw : Document) (cs : List Char) : Prop :=
  (∀ n, raw ≠ .int n) ∧ cs = Text.trimChars raw.asText.toList

/-- Digits that are no integer: there is a digit mark among them, or there are too many. -/
def MiscountsTime (raw : Document) : Prop :=
  ∃ cs, IsWritten raw cs ∧ Text.isDigits cs = true ∧ ¬Text.IsInteger cs

def signed (negative : Bool) (d : Duration) : Duration := if negative then d.negate else d

/-- An offset from an anchor that cannot be represented. -/
def OverrunsAnchor (raw : Document) : Prop :=
  ∃ cs a negative word t, IsWritten raw cs ∧ IsAnchored (upperCase cs) a negative word ∧
    Says (lowerCase word) t ∧ ∀ d ∈ t, ¬(signed negative d).Representable

section

variable {cs rest word : List Char} {a : Anchor} {negative : Bool}

theorem readOffset?_eq_some_iff :
    readOffset? cs = some (some (negative, word)) ↔ IsOffset cs negative word := by
  constructor
  · intro h
    rw [readOffset?] at h
    split at h
    · cases h
    next sign rest hrest =>
    simp only at h
    split at h
    · next hword =>
      obtain ⟨hsign, hne, hfree⟩ := hword
      cases h
      refine ⟨⟨cs.takeWhile isBlank, rest.takeWhile isBlank, fun c hc => List.mem_takeWhile_imp hc,
        fun c hc => List.mem_takeWhile_imp hc, ?_⟩, hne, by simpa using hfree⟩
      have hmark : (if decide (sign = '-') = true then '-' else '+') = sign := by
        rcases hsign with rfl | rfl <;> rfl
      rw [hmark, List.takeWhile_append_dropWhile, ← hrest, List.takeWhile_append_dropWhile]
    · cases h
  · rintro ⟨⟨before, after, hbefore, hafter, rfl⟩, hne, hfree⟩
    have hsign : ∀ c ∈ ((if negative then '-' else '+') :: (after ++ word)).head?, isBlank c = false := by
      rintro c hc
      cases negative <;> cases hc <;> decide +kernel
    have hword : ∀ c ∈ word.head?, isBlank c = false := fun c hc => hfree c (List.mem_of_mem_head? hc)
    rw [readOffset?, Text.dropWhile_run hbefore hsign]
    simp only [Text.dropWhile_run hafter hword]
    have hall : word.all (!isBlank ·) = true := by simpa using hfree
    cases negative <;> simp [hne, hall]

/-- The names of the anchors go on differently, so that a text begins with one of them only. -/
theorem readAnchor?_append : readAnchor? (a.name.toList ++ rest) = (readOffset? rest).map (a, ·) := by
  have hsunrise : Anchor.sunrise.name.toList = ['S', 'U', 'N', 'R', 'I', 'S', 'E'] := by decide +kernel
  have hsunset : Anchor.sunset.name.toList = ['S', 'U', 'N', 'S', 'E', 'T'] := by decide +kernel
  have hnoon : Anchor.noon.name.toList = ['N', 'O', 'O', 'N'] := by decide +kernel
  have hmidnight : Anchor.midnight.name.toList = ['M', 'I', 'D', 'N', 'I', 'G', 'H', 'T'] := by decide +kernel
  cases hoffset : readOffset? rest <;> cases a <;>
    simp [readAnchor?, hsunrise, hsunset, hnoon, hmidnight, hoffset]

theorem readAnchor?_eq_some_iff :
    readAnchor? cs = some (a, some (negative, word)) ↔ IsAnchored cs a negative word := by
  constructor
  · intro h
    obtain ⟨b, -, hb⟩ := List.exists_of_findSome?_eq_some h
    simp only at hb
    split at hb
    · next hprefix =>
      obtain ⟨offset, hoffset, heq⟩ := Option.map_eq_some_iff.mp hb
      cases heq
      obtain ⟨rest, rfl⟩ := List.isPrefixOf_iff_prefix.mp hprefix
      rw [List.drop_left] at hoffset
      exact ⟨rest, rfl, readOffset?_eq_some_iff.mp hoffset⟩
    · cases hb
  · rintro ⟨rest, rfl, hoffset⟩
    rw [readAnchor?_append, readOffset?_eq_some_iff.mpr hoffset]
    rfl

theorem readAnchor?_of_isDigits (h : Text.isDigits cs = true) : readAnchor? (upperCase cs) = none := by
  rw [Text.isDigits, Bool.and_eq_true, List.all_eq_true] at h
  rw [upperCase_of_isDigit h.2, readAnchor?, List.findSome?_eq_none_iff]
  intro a _
  have hletter : a.name.toList.any (!isDigit ·) = true := by
    cases a <;> decide +kernel
  obtain ⟨c, hmem, hc⟩ := List.any_eq_true.mp hletter
  simp only
  split
  · next hprefix =>
    have hdigit := h.2 c ((List.isPrefixOf_iff_prefix.mp hprefix).subset hmem)
    simp [hdigit] at hc
  · rfl

end

section

variable {negative : Bool} {word : List Char} {t : Option Duration}

/-- A duration whose opposite can be represented can be represented, as it is not negative. -/
theorem representable_of_signed {d : Duration} (hd : Duration.zero ≤ d) (h : (signed negative d).Representable) :
    d.Representable := by
  cases negative with
  | false => exact h
  | true =>
    have hmicros : 0 ≤ d.micros := hd
    obtain ⟨hlow, -⟩ := h
    simp only [signed, if_true, Representable, wholeDays, negate_micros, perDay, perSecond, maxDays] at hlow ⊢
    omega

theorem check_of_not_representable {d : Duration} (h : ¬d.Representable) :
    d.check = Result.misuse (.durationRange d.wholeDays) := by
  rw [check, if_neg h]

theorem offsetOf_of_says (raw : Document) (negative : Bool) (h : Says (lowerCase word) t)
    (hfree : ∀ c ∈ word, isBlank c = false) :
    (∃ d ∈ t, (signed negative d).Representable ∧ offsetOf raw negative word = .ok (signed negative d)) ∨
      (∀ d ∈ t, ¬(signed negative d).Representable) ∧
        ∃ fault, offsetOf raw negative word = .error fault ∧ fault.category = .overflow := by
  have hparse : Duration.parse (.text (String.ofList word)) = accept t := by
    refine parse_of_says ?_
    rwa [String.toList_ofList, (Text.trimmed_of_forall hfree).trimChars]
  rw [offsetOf, hparse]
  cases t with
  | none => exact .inr ⟨nofun, _, rfl, rfl⟩
  | some d =>
    have hnonneg := h.nonneg d rfl
    by_cases hsigned : (signed negative d).Representable
    · have hd := (check_eq_ok_iff d d).mpr ⟨rfl, representable_of_signed hnonneg hsigned⟩
      have hresult := (check_eq_ok_iff _ _).mpr ⟨rfl, hsigned⟩
      refine .inl ⟨d, rfl, hsigned, ?_⟩
      rw [accept, hd]
      cases negative with
      | false => rfl
      | true => exact hresult
    · refine .inr ⟨fun e he => by cases he; exact hsigned, ?_⟩
      rw [accept]
      by_cases hd : d.Representable
      · rw [(check_eq_ok_iff d d).mpr ⟨rfl, hd⟩]
        cases negative with
        | false => exact absurd hd hsigned
        | true => exact ⟨_, check_of_not_representable hsigned, rfl⟩
      · rw [check_of_not_representable hd]
        exact ⟨_, rfl, rfl⟩

end

/-- Bounds at a time on a clock stay within the day: the clock does, and there is no offset. -/
def StaysInDay (b : Bound) : Prop :=
  ∀ c, b.base = .clock c → b.offset = .zero ∧ c.hour < 24 ∧ c.minute < 60 ∧ c.second < 60

section

variable {b : Bound} {raw : Document} {cs : List Char}

theorem stays_midnight : StaysInDay midnight := nofun

theorem stays_atClock {c : Clock} (hour : c.hour < 24) (minute : c.minute < 60) (second : c.second < 60) :
    StaysInDay (atClock c) := by
  rintro c' h
  cases h
  exact ⟨rfl, hour, minute, second⟩

theorem ofMilitary_cases (n : Int) :
    (∃ b, ofMilitary n = .ok b ∧ StaysInDay b) ∨ ∃ cause, ofMilitary n = .error (.schedule cause) := by
  simp only [ofMilitary]
  split
  · exact .inl ⟨_, rfl, stays_midnight⟩
  split
  · next hrange => exact .inl ⟨_, rfl, stays_atClock (by simp; omega) (by simp; omega) (by simp)⟩
  · exact .inr ⟨_, rfl⟩

theorem range_of_read? {s : String} {c : Clock} (h : Clock.read? s = some c) :
    c.hour < 24 ∧ c.minute < 60 ∧ c.second < 60 := by
  have hrange {c : Clock} (h : ¬(!c.inRange) = true) : c.hour < 24 ∧ c.minute < 60 ∧ c.second < 60 := by
    simp only [Bool.not_eq_true', Bool.not_eq_false, Clock.inRange, Bool.and_eq_true, decide_eq_true_eq] at h
    exact ⟨h.1.1.1, h.1.1.2, h.1.2⟩
  simp only [Clock.read?, Clock.readBytes] at h
  split at h
  · cases h
  split at h
  · cases h
  next hin =>
  split at h
  · split at h
    · cases h
    · cases h
      exact hrange hin
  · obtain ⟨offset, -, rfl⟩ := Option.map_eq_some_iff.mp h
    exact hrange hin

theorem StaysInDay.fixedOffset {c : Clock} (h : StaysInDay b) (hbase : b.base = .clock c) (isEnd : Bool) :
    ∃ d, b.fixedOffset isEnd = .ok (some d) ∧ Duration.zero ≤ d ∧ d < Duration.day := by
  obtain ⟨hoffset, hour, minute, second⟩ := h c hbase
  have hfixed : b.fixed isEnd = some (ofSeconds ((c.hour * 60 + c.minute) * 60 + c.second)) := by
    simp [fixed, hbase, hoffset, Duration.plus, Duration.zero]
  have hzero : Duration.zero ≤ ofSeconds ((c.hour * 60 + c.minute) * 60 + c.second) := by
    simp only [le_def, Duration.zero, ofSeconds, perSecond]
    omega
  have hday : ofSeconds ((c.hour * 60 + c.minute) * 60 + c.second) < Duration.day := by
    simp only [lt_def, Duration.day, ofSeconds, perDay, perSecond]
    omega
  have hlies : b.LiesAt isEnd (ofSeconds ((c.hour * 60 + c.minute) * 60 + c.second)) :=
    ⟨hfixed, hzero, Int.le_of_lt hday⟩
  exact ⟨_, hlies.fixedOffset, hzero, hday⟩

theorem IsWritten.parse_of_isAnchored {a : Anchor} {negative : Bool} {word : List Char} (hcs : IsWritten raw cs)
    (h : IsAnchored (upperCase cs) a negative word) :
    parse raw = (offsetOf raw negative word).map fun offset => ⟨.anchor a, offset⟩ := by
  obtain ⟨hint, rfl⟩ := hcs
  unfold parse
  split
  · next n => exact absurd rfl (hint n)
  · simp only [readAnchor?_eq_some_iff.mpr h]
    cases offsetOf raw negative word <;> rfl

theorem IsWritten.parse_of_isDigits (hcs : IsWritten raw cs) (h : Text.isDigits cs = true) :
    parse raw = (do ofMilitary (← Text.readInteger cs)) := by
  obtain ⟨hint, rfl⟩ := hcs
  unfold parse
  split
  · next n => exact absurd rfl (hint n)
  · simp only [readAnchor?_of_isDigits h, h, if_true]

theorem OverrunsAnchor.parse_eq_error (h : OverrunsAnchor raw) :
    ∃ fault, parse raw = .error fault ∧ fault.category = .overflow := by
  obtain ⟨cs, a, negative, word, t, hcs, hanchored, hsays, hover⟩ := h
  have hoffset := offsetOf_of_says raw negative hsays hanchored.free
  rw [hcs.parse_of_isAnchored hanchored]
  rcases hoffset with ⟨d, hd, hsigned, -⟩ | ⟨-, fault, hfault, hcategory⟩
  · exact absurd hsigned (hover d hd)
  · rw [hfault]
    exact ⟨fault, rfl, hcategory⟩

theorem MiscountsTime.parse_eq_error (h : MiscountsTime raw) :
    ∃ fault, parse raw = .error fault ∧ fault.category = .invalidValue := by
  obtain ⟨cs, hcs, hdigits, hinteger⟩ := h
  rw [hcs.parse_of_isDigits hdigits]
  cases hread : Text.readInteger cs with
  | ok n => exact absurd (Text.readInteger_eq_ok_iff_isInteger.mp hread).1 hinteger
  | error fault =>
    obtain ⟨cause, rfl⟩ := Text.invalid_of_readInteger hread
    exact ⟨_, rfl, rfl⟩

/-- Apart from these two cases a bound comes out that stays within the day, or the schedule is wrong. -/
theorem parse_cases (hmiscounts : ¬MiscountsTime raw) (hoverruns : ¬OverrunsAnchor raw) :
    (∃ b, parse raw = .ok b ∧ StaysInDay b) ∨ ∃ cause, parse raw = .error (.schedule cause) := by
  by_cases hint : ∃ n, raw = .int n
  · obtain ⟨n, rfl⟩ := hint
    exact ofMilitary_cases n
  obtain ⟨cs, hcs⟩ : ∃ cs, IsWritten raw cs := ⟨_, fun n h => hint ⟨n, h⟩, rfl⟩
  by_cases hdigits : Text.isDigits cs = true
  · have hinteger : Text.IsInteger cs := not_not.mp fun hnot => hmiscounts ⟨cs, hcs, hdigits, hnot⟩
    rw [hcs.parse_of_isDigits hdigits, Text.readInteger_eq_ok_iff_isInteger.mpr ⟨hinteger, rfl⟩]
    exact ofMilitary_cases _
  by_cases hanchored : ∃ a negative word, IsAnchored (upperCase cs) a negative word
  · obtain ⟨a, negative, word, hanchored⟩ := hanchored
    rw [hcs.parse_of_isAnchored hanchored]
    rcases says_or_invalid (String.ofList word) with ⟨t, hsays⟩ | ⟨cause, hinvalid⟩
    · rw [String.toList_ofList, (Text.trimmed_of_forall hanchored.free).trimChars] at hsays
      rcases offsetOf_of_says raw negative hsays hanchored.free with ⟨d, -, -, hoffset⟩ | ⟨hover, -⟩
      · rw [hoffset]
        exact .inl ⟨_, rfl, nofun⟩
      · exact absurd ⟨cs, a, negative, word, t, hcs, hanchored, hsays, hover⟩ hoverruns
    · rw [offsetOf, hinvalid]
      exact .inr ⟨_, rfl⟩
  -- What is left is an anchor alone, the end of the day or a time on a clock.
  obtain ⟨-, rfl⟩ := hcs
  unfold parse
  split
  · next n => exact ofMilitary_cases n
  simp only [if_neg hdigits]
  split
  · exact .inl ⟨_, rfl, nofun⟩
  · next hanchor => exact absurd ⟨_, _, _, readAnchor?_eq_some_iff.mp hanchor⟩ hanchored
  split
  · exact .inl ⟨_, rfl, stays_midnight⟩
  split
  · next c hread =>
    obtain ⟨hour, minute, second⟩ := range_of_read? hread
    exact .inl ⟨_, rfl, stays_atClock hour minute second⟩
  · exact .inr ⟨_, rfl⟩

def faultOf {α : Type} : Result α → Option FaultCategory
  | .ok _ => none
  | .error fault => some fault.category

/-- Whatever document is read, a bound at a time on a clock comes less than a day after the day began, and what is no
bound is a mistake in the schedule, unless its digits are no integer or its offset from an anchor is out of range. The
former is a value without a meaning then, and the latter an overflow. -/
theorem parse_keeps_to_schedule (raw : Document) :
    (∀ b c isEnd, parse raw = .ok b → b.base = .clock c →
      ∃ d, b.fixedOffset isEnd = .ok (some d) ∧ Duration.zero ≤ d ∧ d < Duration.day) ∧
    (¬MiscountsTime raw → ¬OverrunsAnchor raw →
      faultOf (parse raw) = none ∨ faultOf (parse raw) = some .scheduleConfig) ∧
    (MiscountsTime raw → faultOf (parse raw) = some .invalidValue) ∧
    (OverrunsAnchor raw → faultOf (parse raw) = some .overflow) := by
  have hmiscounts (h : MiscountsTime raw) : faultOf (parse raw) = some .invalidValue := by
    obtain ⟨fault, hfault, hcategory⟩ := h.parse_eq_error
    rw [hfault, faultOf, hcategory]
  have hoverruns (h : OverrunsAnchor raw) : faultOf (parse raw) = some .overflow := by
    obtain ⟨fault, hfault, hcategory⟩ := h.parse_eq_error
    rw [hfault, faultOf, hcategory]
  refine ⟨fun b c isEnd hparse hbase => ?_, fun hm ho => ?_, hmiscounts, hoverruns⟩
  · have hok : faultOf (parse raw) = none := by rw [hparse]; rfl
    have hm (h : MiscountsTime raw) : False := by simp [hmiscounts h] at hok
    have ho (h : OverrunsAnchor raw) : False := by simp [hoverruns h] at hok
    rcases parse_cases hm ho with ⟨b', hb', hstays⟩ | ⟨cause, hcause⟩
    · cases hparse.symm.trans hb'
      exact hstays.fixedOffset hbase isEnd
    · cases hparse.symm.trans hcause
  · rcases parse_cases hm ho with ⟨b, hb, -⟩ | ⟨cause, hcause⟩
    · exact .inl (by rw [hb]; rfl)
    · exact .inr (by rw [hcause]; rfl)

/-- An offset of more days than can be represented. -/
theorem sunrise_too_far_off : faultOf (parse (.text "SUNRISE+1000000000d")) = some .overflow := by decide +kernel

end

end Domotics.Bound
