import Domotics.Proofs.Periodic.Occurrence

/-!
The timer of a rule keeps to the occurrences of its specifications. Whatever was done to it since it
was first armed, and in whatever order, the next periodic fire is the first occurrence after the last of
these times: none is lost, none comes twice, and those of an interval stay on the grid of their base.
-/

namespace Domotics

variable {solar : SolarCalendar} {offset : Option Int}

namespace Periodic

/-- The occurrences of a specification: the multiples of an interval from a base on, or the moments to
which a bound resolves on its days. -/
def OccursAt (base : Moment) (solar : SolarCalendar) : Periodic → Moment → Prop
  | every interval => Retrigger.Multiple base interval
  | daily bound weekday => bound.OccursAt weekday solar base.offset

def Regular (solar : SolarCalendar) (offset : Option Int) : Periodic → Prop
  | every _ => True
  | daily bound _ => bound.KeepsToDay solar offset

def HasRoom (t : Moment) : Periodic → Prop
  | every interval => (t.plus interval).InCalendar
  | daily _ weekday => t.day + Day.cycle weekday < Day.count

instance (t : Moment) : (spec : Periodic) → Decidable (spec.HasRoom t)
  | every interval => inferInstanceAs (Decidable (t.plus interval).InCalendar)
  | daily _ _ => inferInstanceAs (Decidable (_ < Day.count))

end Periodic

namespace Retrigger

inductive Use where
  | arm (t : Moment)
  | recordFired (t : Moment)
  | consume (t : Moment)
deriving DecidableEq, Inhabited, Repr

namespace Use

def time : Use → Moment
  | arm t => t
  | recordFired t => t
  | consume t => t

def armedAt (before : Moment) : Use → Moment
  | arm t => t
  | _ => before

def lastFired (before : Option Moment) : Use → Option Moment
  | recordFired t => some t
  | _ => before

end Use

def use (r : Retrigger) (solar : SolarCalendar) : Use → Retrigger × Result Unit
  | .arm t => r.arm t solar
  | .recordFired t => r.recordFired t solar
  | .consume t => r.consume t solar

def useAll (r : Retrigger) (solar : SolarCalendar) : List Use → Result Retrigger
  | [] => .ok r
  | u :: rest =>
    match r.use solar u with
    | (r, .ok ()) => r.useAll solar rest
    | (_, .error fault) => .error fault

def laterOf (armed : Moment) : Option Moment → Moment
  | none => armed
  | some last => if armed.instant < last.instant then last else armed

/-- A moment with an offset that leaves room for the next occurrence of every specification. -/
structure Fits (specs : List Periodic) (offset : Option Int) (t : Moment) : Prop where
  offset : t.offset = offset
  inCalendar : t.InCalendar
  room : ∀ spec ∈ specs, spec.HasRoom t

instance (specs : List Periodic) (offset : Option Int) (t : Moment) : Decidable (Fits specs offset t) :=
  decidable_of_iff (t.offset = offset ∧ t.InCalendar ∧ ∀ spec ∈ specs, spec.HasRoom t)
    ⟨fun h => ⟨h.1, h.2.1, h.2.2⟩, fun h => ⟨h.1, h.2, h.3⟩⟩

def Occurs (specs : List Periodic) (base : Moment) (solar : SolarCalendar) (t : Moment) : Prop :=
  ∃ spec ∈ specs, spec.OccursAt base solar t

variable {r r' : Retrigger} {specs : List Periodic} {armed base now t : Moment} {fired : Option Moment}

theorem laterOf_of {P : Moment → Prop} (harmed : P armed) (hfired : ∀ t ∈ fired, P t) :
    P (laterOf armed fired) := by
  cases fired with
  | none => exact harmed
  | some last =>
    rw [laterOf]
    split
    · exact hfired last rfl
    · exact harmed

theorem base_eq_laterOf (harmed : r.armedAt = some armed)
    (hfired : ∀ t ∈ r.lastFired, t.offset = armed.offset) (now : Moment) :
    r.base now = .ok (laterOf armed r.lastFired) := by
  rw [base, harmed]
  cases hlast : r.lastFired with
  | none => rfl
  | some last =>
    have hcomparable : last.Comparable armed := congrArg Option.isSome (hfired last hlast)
    have horder : last.order armed = .ok (compare last.instant armed.instant) :=
      Moment.order_eq_ok_iff.mpr ⟨hcomparable, rfl⟩
    simp only [Option.getD_some, horder, Result.ok_bind, Result.pure_eq_ok, Int.compare_eq_gt, laterOf]

/-- What a timer remembers of the uses so far. -/
structure Recalls (r : Retrigger) (specs : List Periodic) (armed : Moment) (fired : Option Moment) :
    Prop where
  specs_eq : r.specs = specs
  armedAt : r.armedAt = some armed
  lastFired : r.lastFired = fired

theorem Recalls.base_eq (h : r.Recalls specs armed fired) (harmed : Fits specs offset armed)
    (hfired : ∀ t ∈ fired, Fits specs offset t) (now : Moment) :
    r.base now = .ok (laterOf armed fired) := by
  have hoffset : ∀ t ∈ r.lastFired, t.offset = armed.offset := by
    rw [h.lastFired]
    exact fun t ht => (hfired t ht).offset.trans harmed.offset.symm
  rw [base_eq_laterOf h.armedAt hoffset, h.lastFired]

theorem tickOf_eq_ok {spec : Periodic} (hspec : spec.Regular solar offset) (hmem : spec ∈ specs)
    (hbase : Fits specs offset base) (hnow : Fits specs offset now) (h : r.base now = .ok base) :
    ∃ t, r.tickOf now solar spec = .ok t ∧ t.offset = offset ∧
      now.FirstAfter (spec.OccursAt base solar) t := by
  cases spec with
  | every interval =>
    rw [tickOf, h, Result.ok_bind, ← hnow.offset]
    exact intervalTick_eq_ok (hbase.offset.trans hnow.offset.symm) (hbase.room _ hmem)
      (hnow.room _ hmem)
  | daily bound weekday =>
    rw [tickOf, Periodic.OccursAt, hbase.offset, ← hnow.offset]
    exact Bound.KeepsToDay.nextOccurrence (hnow.offset ▸ hspec) (hnow.room _ hmem)

/-- The earliest of the next times is the first occurrence of any specification. -/
theorem computeNext_eq_ok (hspecs : ∀ spec ∈ r.specs, spec.Regular solar offset)
    (hbase : Fits r.specs offset base) (hnow : Fits r.specs offset now) (h : r.base now = .ok base) :
    ∃ next, r.computeNext now solar = .ok next ∧ (next = none ↔ r.specs = []) ∧
      ∀ t ∈ next, now.FirstAfter (Occurs r.specs base solar) t := by
  have htick (spec : Periodic) (hmem : spec ∈ r.specs) :=
    tickOf_eq_ok (hspecs spec hmem) hmem hbase hnow h
  obtain ⟨next, hnext⟩ := exists_computeNext fun spec hmem => (htick spec hmem).imp
    fun _ ht => ⟨ht.1, congrArg Option.isSome (hnow.offset.trans ht.2.1.symm)⟩
  refine ⟨next, hnext, ⟨?_, fun hnil => ?_⟩, ?_⟩
  · rintro rfl
    refine List.eq_nil_iff_forall_not_mem.mpr fun spec hmem => ?_
    obtain ⟨t, ht, -⟩ := htick spec hmem
    obtain ⟨_, hnone, -⟩ := notAfter_of_computeNext hnext hmem ht
    cases hnone
  · rw [computeNext, hnil] at hnext
    cases hnext
    rfl
  · rintro t rfl
    obtain ⟨spec, hmem, heq⟩ := mem_of_computeNext hnext
    obtain ⟨u, hu, -, hfirst⟩ := htick spec hmem
    cases heq.symm.trans hu
    refine ⟨⟨spec, hmem, hfirst.occurs⟩, hfirst.before, ?_⟩
    rintro o ⟨other, hother, hoccurs⟩ hbefore
    obtain ⟨v, hv, -, hfirst'⟩ := htick other hother
    obtain ⟨t', htt', hnotAfter⟩ := notAfter_of_computeNext hnext hother hv
    cases htt'
    exact hnotAfter.trans (hfirst'.least o hoccurs hbefore)

/-- A timer whose next periodic fire is the first occurrence after some time. -/
structure Planned (r : Retrigger) (specs : List Periodic) (solar : SolarCalendar) (armed : Moment)
    (fired : Option Moment) (now : Moment) : Prop extends Recalls r specs armed fired where
  none_iff : r.nextTick = none ↔ specs = []
  first : ∀ t ∈ r.nextTick, now.FirstAfter (Occurs specs (laterOf armed fired) solar) t

theorem Recalls.plan (h : r.Recalls specs armed fired)
    (hspecs : ∀ spec ∈ specs, spec.Regular solar offset) (harmed : Fits specs offset armed)
    (hfired : ∀ t ∈ fired, Fits specs offset t) (hnow : Fits specs offset now) :
    ∃ r', r.plan now solar = (r', .ok ()) ∧ r'.Planned specs solar armed fired now := by
  have hbase := h.base_eq harmed hfired now
  obtain ⟨rfl, harmedAt, hlastFired⟩ := h
  obtain ⟨next, hnext, hnone, hfirst⟩ :=
    computeNext_eq_ok hspecs (laterOf_of harmed hfired) hnow hbase
  refine ⟨{ r with nextTick := next }, ?_, ⟨rfl, harmedAt, hlastFired⟩, hnone, hfirst⟩
  rw [Retrigger.plan, hnext]

/-- Whatever is done to a timer that has been armed succeeds and plans it anew. -/
theorem Recalls.use (h : r.Recalls specs armed fired)
    (hspecs : ∀ spec ∈ specs, spec.Regular solar offset) (harmed : Fits specs offset armed)
    (hfired : ∀ t ∈ fired, Fits specs offset t) {u : Use} (hu : Fits specs offset u.time) :
    ∃ r', r.use solar u = (r', .ok ()) ∧
      r'.Planned specs solar (u.armedAt armed) (u.lastFired fired) u.time := by
  cases u with
  | arm t =>
    have hr : Recalls { r with armedAt := some t } specs t fired := ⟨h.specs_eq, rfl, h.lastFired⟩
    exact hr.plan hspecs hu hfired hu
  | recordFired t =>
    have hr : Recalls { r with lastFired := some t } specs armed (some t) := ⟨h.specs_eq, h.armedAt, rfl⟩
    obtain ⟨r', hplan, hplanned⟩ := hr.plan hspecs harmed (by rintro _ ⟨⟩; exact hu) hu
    refine ⟨r', ?_, hplanned⟩
    rw [Retrigger.use, recordFired, ← hplan]
    exact if_pos (by simp [h.armedAt])
  | consume t => exact h.plan hspecs harmed hfired hu

def armedBy (start : Moment) (uses : List Use) : Moment := uses.foldl Use.armedAt start

def firedBy (start : Option Moment) (uses : List Use) : Option Moment := uses.foldl Use.lastFired start

def lastOf (start : Moment) (uses : List Use) : Moment := uses.foldl (fun _ u => u.time) start

theorem Use.fits (u : Use) (hu : Fits specs offset u.time) (harmed : Fits specs offset armed)
    (hfired : ∀ t ∈ fired, Fits specs offset t) :
    Fits specs offset (u.armedAt armed) ∧ ∀ t ∈ u.lastFired fired, Fits specs offset t := by
  cases u with
  | arm t => exact ⟨hu, hfired⟩
  | recordFired t => exact ⟨harmed, by rintro _ ⟨⟩; exact hu⟩
  | consume t => exact ⟨harmed, hfired⟩

theorem Planned.useAll (h : r.Planned specs solar armed fired now)
    (hspecs : ∀ spec ∈ specs, spec.Regular solar offset) (harmed : Fits specs offset armed)
    (hfired : ∀ t ∈ fired, Fits specs offset t) {uses : List Use}
    (huses : ∀ u ∈ uses, Fits specs offset u.time) :
    ∃ r', r.useAll solar uses = .ok r' ∧
      r'.Planned specs solar (armedBy armed uses) (firedBy fired uses) (lastOf now uses) := by
  induction uses generalizing r armed fired now with
  | nil => exact ⟨r, rfl, h⟩
  | cons u rest ih =>
    obtain ⟨hu, hrest⟩ := List.forall_mem_cons.mp huses
    obtain ⟨r₁, huse, hplanned⟩ := h.toRecalls.use hspecs harmed hfired hu
    obtain ⟨harmed, hfired⟩ := u.fits hu harmed hfired
    obtain ⟨r', huses, hplanned'⟩ := ih hplanned harmed hfired hrest
    exact ⟨r', by rw [Retrigger.useAll, huse]; exact huses, hplanned'⟩

/-- A periodic fire is due when some specification has an occurrence since the last use. -/
theorem Planned.due (h : r.Planned specs solar armed fired now) {later : Moment}
    (hlater : now.NotAfter later) : ∃ b, r.due later = .ok b ∧
      (b = true ↔ ∃ o, Occurs specs (laterOf armed fired) solar o ∧ now.Before o ∧ o.NotAfter later) := by
  cases hnext : r.nextTick with
  | none =>
    refine ⟨false, due_of_nextTick_eq_none hnext later, by simp, ?_⟩
    rintro ⟨o, ⟨spec, hmem, -⟩, -⟩
    rw [h.none_iff.mp hnext] at hmem
    cases hmem
  | some t =>
    have hfirst := h.first t hnext
    have hcomparable : later.Comparable t := hlater.1.symm.trans hfirst.before.1
    refine ⟨_, due_eq hnext hcomparable, ?_⟩
    rw [decide_eq_true_iff]
    constructor
    · exact fun hle => ⟨t, hfirst.occurs, hfirst.before, hcomparable.symm, hle⟩
    · rintro ⟨o, hoccurs, hafter, hle⟩
      exact ((hfirst.least o hoccurs hafter).trans hle).2

theorem fits_lastOf (hnow : Fits specs offset now) {uses : List Use}
    (huses : ∀ u ∈ uses, Fits specs offset u.time) : Fits specs offset (lastOf now uses) := by
  induction uses generalizing now with
  | nil => exact hnow
  | cons u rest ih =>
    obtain ⟨hu, hrest⟩ := List.forall_mem_cons.mp huses
    exact ih hu hrest

theorem fits_base (harmed : Fits specs offset armed) (hfired : ∀ t ∈ fired, Fits specs offset t)
    {uses : List Use} (huses : ∀ u ∈ uses, Fits specs offset u.time) :
    Fits specs offset (laterOf (armedBy armed uses) (firedBy fired uses)) := by
  induction uses generalizing armed fired with
  | nil => exact laterOf_of harmed hfired
  | cons u rest ih =>
    obtain ⟨hu, hrest⟩ := List.forall_mem_cons.mp huses
    obtain ⟨harmed, hfired⟩ := u.fits hu harmed hfired
    exact ih harmed hfired hrest

/-- After any uses of a timer, the first of which arms it, the next periodic fire is the first
occurrence after the last use, and a fire is due as soon as there has been an occurrence since then. The
multiples of an interval count from the later of the last arming and the last fire, and the loop that
looks for the next of them ends. -/
theorem next_tick_is_first_occurrence {r : Retrigger} {start : Moment} {uses : List Use}
    (hspecs : ∀ spec ∈ r.specs, spec.Regular solar offset)
    (hlast : ∀ t ∈ r.lastFired, Fits r.specs offset t) (hstart : Fits r.specs offset start)
    (huses : ∀ u ∈ uses, Fits r.specs offset u.time) :
    let present := lastOf start uses
    let base := laterOf (armedBy start uses) (firedBy r.lastFired uses)
    ∃ r', r.useAll solar (.arm start :: uses) = .ok r' ∧
      (r'.nextTick = none ↔ r.specs = []) ∧
      (∀ t ∈ r'.nextTick, present.FirstAfter (Occurs r.specs base solar) t) ∧
      (∀ now, present.NotAfter now → ∃ b, r'.due now = .ok b ∧
        (b = true ↔ ∃ o, Occurs r.specs base solar o ∧ present.Before o ∧ o.NotAfter now)) ∧
      ∀ interval, .every interval ∈ r.specs → ∃ t, intervalTick base present interval = .ok t ∧
        Climbs present interval (base.plus interval) t := by
  intro present base
  have hrecalls : Recalls { r with armedAt := some start } r.specs start r.lastFired := ⟨rfl, rfl, rfl⟩
  obtain ⟨r₁, harm, hplanned⟩ := hrecalls.plan hspecs hstart hlast hstart
  obtain ⟨r', huseAll, hplanned'⟩ := hplanned.useAll hspecs hstart hlast huses
  refine ⟨r', ?_, hplanned'.none_iff, hplanned'.first, fun now hnow => hplanned'.due hnow, ?_⟩
  · rw [useAll, use, arm, harm]
    exact huseAll
  · intro interval hmem
    have hbase : Fits r.specs offset base := fits_base hstart hlast huses
    have hpresent : Fits r.specs offset present := fits_lastOf hstart huses
    obtain ⟨t, ht, -, hfirst⟩ := intervalTick_eq_ok
      (hbase.offset.trans hpresent.offset.symm) (hbase.room _ hmem) (hpresent.room _ hmem)
    exact ⟨t, ht, climbs_of_firstAfter hbase.inCalendar
      (inCalendar_of_intervalTick ht) hfirst⟩

def morning : Moment := .onDay 739256 (28500 * Duration.perSecond) (some 0)

/-- A timer with an interval, a time on Mondays and a time in the course of the sun. -/
def mixed : Retrigger :=
  { cooldown := .zero
    specs := [.every (.ofSeconds 600), .daily (.atClock { hour := 8, minute := 0 }) (some morning.weekday),
      .daily ⟨.anchor .sunrise, .ofSeconds 1800⟩ none] }

/-- A fire before the arming, and a poll that comes late. -/
def mixedUses : List Use :=
  [.recordFired (morning.plus (.ofSeconds (-3600))), .consume (morning.plus (.ofSeconds 1500))]

theorem regular_mixed : ∀ spec ∈ mixed.specs, spec.Regular {} (some 0) := by
  have height : (Bound.atClock { hour := 8, minute := 0 }).fixedOffset false =
      .ok (some ⟨28800 * Duration.perSecond⟩) := by
    simp [Bound.fixedOffset, Bound.fixed, Bound.atClock]
    rfl
  simp only [mixed, List.forall_mem_cons, Periodic.Regular]
  refine ⟨trivial, Bound.keepsToDay_of_fixed (by decide) (by decide) height, ?_, by simp⟩
  exact Bound.keepsToDay_of_anchor rfl rfl (fun _ => rfl) (by decide) (by decide)

theorem next_tick_is_first_occurrence_mixed :
    (∀ spec ∈ mixed.specs, spec.Regular {} (some 0)) ∧ Fits mixed.specs (some 0) morning ∧
    (∀ u ∈ mixedUses, Fits mixed.specs (some 0) u.time) ∧
    ∃ r', mixed.useAll {} (.arm morning :: mixedUses) = .ok r' ∧
      ∀ t ∈ r'.nextTick, (lastOf morning mixedUses).FirstAfter
        (Occurs mixed.specs (laterOf (armedBy morning mixedUses) (firedBy none mixedUses)) {}) t := by
  have hstart : Fits mixed.specs (some 0) morning := by decide
  have huses : ∀ u ∈ mixedUses, Fits mixed.specs (some 0) u.time := by decide
  obtain ⟨r', hr', -, hfirst, -⟩ :=
    next_tick_is_first_occurrence regular_mixed (by simp [mixed]) hstart huses
  exact ⟨regular_mixed, hstart, huses, r', hr', hfirst⟩

example : (mixed.useAll {} (.arm morning :: mixedUses)).toOption.bind (·.nextTick) =
    some (morning.plus (.ofSeconds 1800)) := by decide +kernel

end Retrigger
end Domotics
