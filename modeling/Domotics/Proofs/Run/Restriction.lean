import Domotics.Proofs.Engine.Judgement
import Domotics.Proofs.Run.Verdict

/-!
More restrictions never make a rule fire. A rule is restricted by more suppressors, by more entries of its schedule
that forbid or fewer that enable, by not running outside them, and by a longer cooldown. Whatever has cleared the
restricted rule for a fire clears the other one too.
-/

namespace Domotics

open Result

section

variable {s : Situation}

theorem Expression.evaluateAny_eq_false {es : List Expression} :
    (evaluateAny s es).result = .ok false ↔ ∀ e ∈ es, (evaluate s e).result = .ok false := by
  induction es with
  | nil => simp [evaluateAny]
  | cons e rest ih =>
    rw [evaluateAny, Verdict.orElse, List.forall_mem_cons, ← ih]
    cases hfirst : (evaluate s e).result with
    | error fault => simp [hfirst]
    | ok b => cases b <;> simp [hfirst]

end

section

variable {t : Moment} {solar : SolarCalendar} {entries : List ScheduleEntry}

def ScheduleEntry.covers (e : ScheduleEntry) (t : Moment) (solar : SolarCalendar) : Result Bool :=
  if e.days.mem t.weekday then Schedule.anySpan t solar e.effectiveSpans else .ok false

namespace Schedule

theorem anyEntry_cons (e : ScheduleEntry) (rest : List ScheduleEntry) :
    anyEntry t solar (e :: rest) =
      (do if ← e.covers t solar then return true else anyEntry t solar rest) := by
  rw [anyEntry, ScheduleEntry.covers]
  split_ifs with hday
  · rfl
  · rfl

theorem anyEntry_eq_false :
    anyEntry t solar entries = .ok false ↔ ∀ e ∈ entries, e.covers t solar = .ok false := by
  induction entries with
  | nil => simp [anyEntry]
  | cons e rest ih =>
    rw [anyEntry_cons, List.forall_mem_cons, ← ih]
    cases e.covers t solar with
    | error fault => simp [bind, Except.bind]
    | ok b => cases b <;> simp

theorem exists_covers_of_anyEntry (h : anyEntry t solar entries = .ok true) :
    ∃ e ∈ entries, e.covers t solar = .ok true := by
  induction entries with
  | nil => cases h
  | cons e rest ih =>
    rw [anyEntry_cons] at h
    obtain ⟨b, hb, h⟩ := bind_eq_ok.mp h
    cases b with
    | true => exact ⟨e, List.mem_cons_self .., hb⟩
    | false =>
      obtain ⟨e', hmem, hcovers⟩ := ih h
      exact ⟨e', List.mem_cons_of_mem _ hmem, hcovers⟩

/-- What a schedule says, by what its entries say. -/
theorem classify_eq_ok {s : Schedule} {window : Window} (h : s.classify t solar = .ok window) :
    match window with
    | .forbidden => anyEntry t solar s.forbidden = .ok true
    | .allowed => anyEntry t solar s.forbidden = .ok false ∧ anyEntry t solar s.enabled = .ok true
    | .neutral => anyEntry t solar s.forbidden = .ok false ∧ anyEntry t solar s.enabled = .ok false := by
  rw [classify] at h
  obtain ⟨forbidden, hforbidden, h⟩ := bind_eq_ok.mp h
  cases forbidden with
  | true =>
    cases h
    exact hforbidden
  | false =>
    obtain ⟨enabled, henabled, h⟩ := bind_eq_ok.mp h
    cases enabled with
    | true =>
      cases h
      exact ⟨hforbidden, henabled⟩
    | false =>
      cases h
      exact ⟨hforbidden, henabled⟩

end Schedule

end

theorem Retrigger.mayFire_of_le {r : Retrigger} {cooldown : Duration} {now : Moment}
    (h : r.mayFire now = .ok true) (hle : cooldown ≤ r.cooldown) :
    { r with cooldown }.mayFire now = .ok true := by
  rw [mayFire] at h ⊢
  cases hlast : r.lastFired with
  | none => rfl
  | some last =>
    simp only [hlast] at h ⊢
    obtain ⟨elapsed, hsince, h⟩ := bind_eq_ok.mp h
    have hrested : r.cooldown ≤ elapsed := by simpa using h
    have hless : cooldown ≤ elapsed := Int.le_trans hle hrested
    simp [hsince, hless]

/-- The first rule is the second one with more restrictions. -/
structure Rule.Restricts (r' r : Rule) : Prop where
  suppressors : r.suppressors ⊆ r'.suppressors
  forbidden : r.schedule.forbidden ⊆ r'.schedule.forbidden
  enabled : r'.schedule.enabled ⊆ r.schedule.enabled
  byDefault : r'.runsByDefault = true → r.runsByDefault = true
  cooldown : r.cooldown ≤ r'.cooldown
  alike : r' = { r with
    suppressors := r'.suppressors
    schedule := r'.schedule
    enabledByDefault := r'.enabledByDefault
    cooldown := r'.cooldown }

theorem Rule.Restricts.runsIn {r r' : Rule} {t : Moment} {solar : SolarCalendar} {window window' : Window}
    (h : r'.Restricts r) (hwindow : r.schedule.classify t solar = .ok window)
    (hwindow' : r'.schedule.classify t solar = .ok window') (hruns : r'.runsIn window' = true) :
    r.runsIn window = true := by
  have hclass := Schedule.classify_eq_ok hwindow
  have hclass' := Schedule.classify_eq_ok hwindow'
  have hopen : Schedule.anyEntry t solar r'.schedule.forbidden = .ok false := by
    cases window' with
    | forbidden => cases hruns
    | neutral => exact hclass'.1
    | allowed => exact hclass'.1
  have hfree : Schedule.anyEntry t solar r.schedule.forbidden = .ok false :=
    Schedule.anyEntry_eq_false.mpr fun e he => Schedule.anyEntry_eq_false.mp hopen e (h.forbidden he)
  cases window with
  | allowed => rfl
  | forbidden => cases hfree.symm.trans hclass
  | neutral =>
    -- No entry of the one schedule enables the rule, so none of the fewer entries of the other does.
    cases window' with
    | forbidden => cases hruns
    | neutral => exact h.byDefault hruns
    | allowed =>
      obtain ⟨e, he, hcovers⟩ := Schedule.exists_covers_of_anyEntry hclass'.2
      have hnot := Schedule.anyEntry_eq_false.mp hclass.2 e (h.enabled he)
      cases hnot.symm.trans hcovers

namespace Machine

/-- The same machine with another rule of the same periodic fires. -/
def under (m : Machine) (r : Rule) : Machine :=
  { m with rule := r, retrigger := { m.retrigger with cooldown := r.cooldown } }

variable {m : Machine} {r r' : Rule} {s : Situation}

/-- What clears a rule for a fire clears it with fewer restrictions, if its judgement does not break. -/
theorem Cleared.relax (h : r'.Restricts r) (hcleared : (m.under r').Cleared s) {j : Judgement}
    (hjudge : (m.under r).judge s = .ok j) : (m.under r).Cleared s := by
  obtain ⟨hsuppressors', ⟨window', hwindow', hruns'⟩, hrested, htriggered⟩ := hcleared
  have hsuppressors : (Expression.evaluateAny s r.suppressors).result = .ok false :=
    Expression.evaluateAny_eq_false.mpr fun e he =>
      Expression.evaluateAny_eq_false.mp hsuppressors' e (h.suppressors he)
  obtain ⟨window, hwindow⟩ := classify_of_judge hjudge hsuppressors
  have htriggers : r'.triggers = r.triggers := by rw [h.alike]
  refine ⟨hsuppressors, ⟨window, hwindow, h.runsIn hwindow hwindow' hruns'⟩,
    Retrigger.mayFire_of_le (r := (m.under r').retrigger) hrested h.cooldown, ?_⟩
  rwa [under, htriggers] at htriggered

variable {aliases : AliasRegistry} {w : World} {e : Event} {now : Moment}

theorem fired_handle_of_restricts (h : r'.Restricts r) {o o' : Outcome}
    (ho : ((m.under r).handle aliases w e now).result = .ok o)
    (ho' : ((m.under r').handle aliases w e now).result = .ok o') (hfired : o'.fired = true) :
    o.fired = true := by
  obtain ⟨j, hverdict, rfl⟩ := verdict_of_handle ho
  obtain ⟨j', hverdict', rfl⟩ := verdict_of_handle ho'
  have htolerant : r'.isTolerant = r.isTolerant := by
    rw [h.alike]
    rfl
  -- Both rules judge in one situation, since they have seen the same and take faults in the same way.
  rw [verdict] at hverdict hverdict'
  simp only [situation, under, noting, htolerant] at hverdict hverdict'
  have hcleared' := (formed_of_judge hverdict').2 (by simpa [Outcome.fired] using hfired)
  have hcleared := Cleared.relax (m := m.noting e) h hcleared' hverdict
  obtain ⟨absorbed, hfires⟩ := hcleared.judge
  cases hverdict.symm.trans hfires
  rfl

/-- More restrictions never make a rule fire. Let both rules have seen the same, and let neither pass over an event
break: if the restricted rule fires, so does the other. The same goes for periodic events. -/
theorem fires_of_restricts (h : r'.Restricts r) (m : Machine) (aliases : AliasRegistry) (w : World) (now : Moment) :
    (∀ e o o', ((m.under r).handle aliases w e now).result = .ok o →
      ((m.under r').handle aliases w e now).result = .ok o' → o'.fired = true → o.fired = true) ∧
    ∀ x o', ((m.under r).handleTick aliases w now).result = .ok x →
      ((m.under r').handleTick aliases w now).result = .ok (some o') → o'.fired = true →
      ∃ o, x = some o ∧ o.fired = true := by
  refine ⟨fun e o o' ho ho' hfired => fired_handle_of_restricts h ho ho' hfired, fun x o' hx ho' hfired => ?_⟩
  obtain ⟨-, -, hnone⟩ | ⟨_, _, _, hdue', rfl, hpass', -, hsame, -⟩ := handleTick_eq_ok ho'
  · cases hnone
  · cases hsame
    obtain ⟨hdue, -, -⟩ | ⟨_, o, _, -, rfl, hpass, -, rfl, -⟩ := handleTick_eq_ok hx
    · -- Both rules wait for the same periodic event.
      have hsame : (m.under r).retrigger.due now = (m.under r').retrigger.due now := rfl
      cases (hdue.symm.trans hsame).trans hdue'
    · exact ⟨o, rfl, fired_handle_of_restricts h hpass hpass' hfired⟩

/-- A rule that greets who comes to the door, and speaks once an hour, but not while the alarm is on. -/
def greeting : Rule where
  name := .text "greeting"
  triggers := [.device { target := .text "door", kind := .receivesUpdate }]
  suppressors := [.device { target := .text "alarm", kind := .is, value := .onOff .on }]
  schedule := { enabled := [⟨.full, []⟩, ⟨.full, [⟨.atClock { hour := 12, minute := 0 }, .midnight⟩]⟩] }
  periodic := [.every (.ofSeconds 3600)]
  actions := [.notify (.text "hello")]

/-- The same rule, but not while the lamp is on, only in the afternoon and not in the evening, and once a minute at
most. -/
def quietGreeting : Rule :=
  { greeting with
    suppressors := .device { target := .text "lamp", kind := .is, value := .onOff .on } :: greeting.suppressors
    schedule := {
      enabled := greeting.schedule.enabled.drop 1
      forbidden := [⟨.full, [⟨.atClock { hour := 18, minute := 0 }, .midnight⟩]⟩] }
    enabledByDefault := .bool false
    cooldown := .ofSeconds 60 }

theorem fires_of_restricts_greeting :
    let start : Moment := .onDay 739256 (50400 * Duration.perSecond) (some 0)
    let now := start.plus (.ofSeconds 3600)
    let w : World := { platform := {
      now, catalog := { items := ["door", "alarm", "lamp"].map fun name => { name, accepts := [.onOff] } } } }
    let m : Machine := { (default : Machine) with
      retrigger := ⟨.zero, greeting.periodic, some start, some start, some now⟩ }
    let e : Event := { ref := some ⟨.item, "door"⟩, kind := .update, new := .onOff .on, time := now }
    quietGreeting.Restricts greeting ∧
    (∃ o o', ((m.under greeting).handle {} w e now).result = .ok o ∧
      ((m.under quietGreeting).handle {} w e now).result = .ok o' ∧ o'.fired = true ∧ o.fired = true) ∧
    ∃ x o', ((m.under greeting).handleTick {} w now).result = .ok x ∧
      ((m.under quietGreeting).handleTick {} w now).result = .ok (some o') ∧ o'.fired = true ∧
      ∃ o, x = some o ∧ o.fired = true := by
  intro start now w m e
  have hrestricts : quietGreeting.Restricts greeting :=
    ⟨by simp [quietGreeting], by simp [greeting], List.drop_subset .., nofun, by decide, rfl⟩
  obtain ⟨hevent, htick⟩ := fires_of_restricts hrestricts m {} w now
  have hquiet : ((m.under quietGreeting).handle {} w e now).result.toOption.map (·.fired) = some true := by
    decide +kernel
  have hloud : ((m.under greeting).handle {} w e now).result.toOption.isSome = true := by decide +kernel
  have hquietTick : (((m.under quietGreeting).handleTick {} w now).result.toOption.map
      (·.map (·.fired))) = some (some true) := by decide +kernel
  have hloudTick : ((m.under greeting).handleTick {} w now).result.toOption.isSome = true := by decide +kernel
  obtain ⟨o', ho', hfired⟩ := Option.map_eq_some_iff.mp hquiet
  obtain ⟨o, ho⟩ := Option.isSome_iff_exists.mp hloud
  obtain ⟨x', hx', hsome⟩ := Option.map_eq_some_iff.mp hquietTick
  obtain ⟨u', rfl, hfiredTick⟩ := Option.map_eq_some_iff.mp hsome
  obtain ⟨x, hx⟩ := Option.isSome_iff_exists.mp hloudTick
  have ho := ok_of_toOption ho
  have ho' := ok_of_toOption ho'
  have hx := ok_of_toOption hx
  have hx' := ok_of_toOption hx'
  exact ⟨hrestricts, ⟨o, o', ho, ho', hfired, hevent e o o' ho ho' hfired⟩,
    ⟨x, u', hx, hx', hfiredTick, htick x u' hx hx' hfiredTick⟩⟩

end Machine
end Domotics
