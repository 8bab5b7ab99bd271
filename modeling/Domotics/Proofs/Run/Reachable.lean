import Domotics.Proofs.Run.Effect
import Domotics.Proofs.Run.Noted

/-!
Only a fire has effects, and a fire has all of them. In any state that a loaded rule can come to, its timers are in
order: a fire plans the next periodic fire ahead, a periodic event that was due is passed over, and any other pass
leaves the plans as they are.
-/

namespace Domotics

open Result

namespace Retrigger

variable {r : Retrigger} {now : Moment} {solar : SolarCalendar}

theorem ahead_of_plan (h : (r.plan now solar).2 = .ok ()) :
    if r.specs = [] then (r.plan now solar).1.nextTick = none
    else ∃ t, (r.plan now solar).1.nextTick = some t ∧ now.Before t := by
  obtain ⟨next, hnext, hahead⟩ := plan_eq_ok h
  cases hspecs : r.specs with
  | nil => simp [plan_of_specs_eq_nil hspecs]
  | cons spec rest =>
    have hcomputed : r.computeNext now solar = .ok next := by
      rw [plan] at h hnext
      cases hcompute : r.computeNext now solar with
      | error fault => simp [hcompute] at h
      | ok planned =>
        simp only [hcompute] at hnext
        exact congrArg Except.ok (congrArg Retrigger.nextTick hnext)
    -- One time is computed for each specification, so there is an earliest one.
    obtain ⟨ticks, hticks, hearliest⟩ := bind_eq_ok.mp hcomputed
    rw [hspecs, List.mapM_cons] at hticks
    obtain ⟨first, -, hticks⟩ := bind_eq_ok.mp hticks
    obtain ⟨later, -, hticks⟩ := bind_eq_ok.mp hticks
    cases hticks
    obtain ⟨t, ht, -⟩ := notAfter_of_earliest hearliest first (List.mem_cons_self ..)
    rw [if_neg (by simp), hnext]
    exact ⟨t, ht, hahead t ht⟩

structure Serves (specs : List Periodic) (r : Retrigger) : Prop where
  specs_eq : r.specs = specs
  unplanned : specs = [] → r.nextTick = none

variable {specs : List Periodic}

theorem Serves.plan (h : r.Serves specs) (now : Moment) (solar : SolarCalendar) :
    (r.plan now solar).1.Serves specs := by
  refine ⟨by rw [plan_specs, h.specs_eq], fun hnone => ?_⟩
  rw [plan_of_specs_eq_nil (h.specs_eq.trans hnone)]

theorem Serves.recordFired (h : r.Serves specs) (now : Moment) (solar : SolarCalendar) :
    (r.recordFired now solar).1.Serves specs := by
  have hfired : Serves specs { r with lastFired := some now } := ⟨h.specs_eq, h.unplanned⟩
  rw [Retrigger.recordFired]
  dsimp only
  split
  · exact hfired.plan now solar
  · exact hfired

theorem Serves.ne_nil_of_due (h : r.Serves specs) (hdue : r.due now = .ok true) : specs ≠ [] := by
  intro hnone
  rw [due_of_nextTick_eq_none (h.unplanned hnone)] at hdue
  cases hdue

end Retrigger

namespace Machine

/-- The states that a loaded rule can come to. It was set up with other rules, and then events came to it, and times for
periodic ones. -/
inductive Reached : Machine → Prop where
  | loaded {rs : RuleSet} {now : Moment} {solar : SolarCalendar} {book : RuleBook} {m : Machine}
      (hbuild : RuleBook.build rs now solar = .ok book) (hm : m ∈ book.machines) : Reached m
  | visited {m : Machine} (v : Visit) (h : Reached m) : Reached (m.visit v)

/-- What a rule keeps of its beginning: a name that can be looked up, and timers that have been started. -/
structure Timekeeping (m : Machine) : Prop where
  name : m.rule.name.isScalar = true
  serves : m.retrigger.Serves m.rule.periodic
  armed : m.retrigger.Armed

section

variable {m : Machine} (aliases : AliasRegistry) (w : World) (now : Moment)

theorem serves_handle {specs : List Periodic} (h : m.retrigger.Serves specs) (e : Event) :
    (m.handle aliases w e now).machine.retrigger.Serves specs := by
  have hhandled := m.handled_handle aliases w e now
  generalize m.handle aliases w e now = pass at hhandled ⊢
  cases hhandled with
  | broke => exact h
  | rested => exact h
  | @fired _ after _ _ _ _ _ hrecord =>
    have hserves := h.recordFired now after.platform.solar
    rwa [hrecord] at hserves
  | @unplanned _ after _ _ _ _ _ hrecord =>
    have hserves := h.recordFired now after.platform.solar
    rwa [hrecord] at hserves

theorem serves_handleTick {specs : List Periodic} (h : m.retrigger.Serves specs) :
    (m.handleTick aliases w now).machine.retrigger.Serves specs := by
  have hpass := serves_handle aliases w now h (.tick now)
  rw [handleTick]
  split
  · exact h
  · exact h
  · dsimp only
    generalize m.handle aliases w (.tick now) now = pass at hpass ⊢
    have hconsume := hpass.plan now w.platform.solar
    rw [← Retrigger.consume] at hconsume
    split
    · exact hpass
    · split
      · exact hpass
      · split
        all_goals rename_i hplanned
        all_goals rwa [hplanned] at hconsume

end

theorem Timekeeping.visit {m : Machine} (h : m.Timekeeping) (v : Visit) : (m.visit v).Timekeeping := by
  cases v with
  | event aliases w e now =>
    have hrule := (m.passed_handle aliases w e now).rule
    refine ⟨?_, ?_, (m.armed_handle aliases w e now h.armed).1⟩
    · rw [Machine.visit, hrule, h.name]
    · rw [Machine.visit, hrule]
      exact serves_handle aliases w now h.serves e
  | tick aliases w now =>
    have hrule := m.rule_handleTick aliases w now
    refine ⟨?_, ?_, (m.armed_handleTick aliases w now h.armed).2.1⟩
    · rw [Machine.visit, hrule, h.name]
    · rw [Machine.visit, hrule]
      exact serves_handleTick aliases w now h.serves

/-- Whatever has come to a rule since it was loaded, its name and its timers are in order. -/
theorem Reached.timekeeping {m : Machine} (h : m.Reached) : m.Timekeeping := by
  induction h with
  | @loaded rs now solar book m hbuild hm =>
    have hfresh := (RuleBook.holds_of_build hbuild).fresh m hm
    have hpunctual := RuleBook.punctual_of_build hbuild m hm
    exact ⟨hfresh.name, ⟨hfresh.specs, hfresh.nextTick⟩, hpunctual.armed⟩
  | visited v _ ih => exact ih.visit v

variable {m : Machine}

def PlansFrom (now : Moment) (m : Machine) : Prop :=
  if m.rule.periodic = [] then m.retrigger.nextTick = none
  else ∃ t, m.retrigger.nextTick = some t ∧ now.Before t

theorem plansFrom_of_plan {now : Moment} {solar : SolarCalendar} {r : Retrigger}
    (hserves : r.Serves m.rule.periodic) (hplan : r.plan now solar = (m.retrigger, .ok ())) : m.PlansFrom now := by
  have hplanned : (r.plan now solar).2 = .ok () := by rw [hplan]
  have hahead := Retrigger.ahead_of_plan hplanned
  rwa [hplan, hserves.specs_eq] at hahead

section

variable {aliases : AliasRegistry} {w : World} {now : Moment} {o : Outcome}

/-- A rule that fires plans ahead, and one that does not leaves its plans as they are. -/
theorem Timekeeping.plan_of_handle (h : m.Timekeeping) {e : Event} (ho : (m.handle aliases w e now).result = .ok o) :
    if o.fired then (m.handle aliases w e now).machine.PlansFrom now
    else (m.handle aliases w e now).machine.retrigger = m.retrigger := by
  cases hfired : o.fired with
  | false =>
    rw [handle_of_not_firing ho (by simpa [Outcome.fired] using hfired)]
    rfl
  | true =>
    obtain ⟨runs, s, retrigger, -, -, -, -, hrecord, heq⟩ :=
      handle_of_firing ho (by simpa [Outcome.fired] using hfired)
    rw [heq, if_pos rfl]
    rw [h.armed.recordFired_eq_plan] at hrecord
    exact plansFrom_of_plan (r := { m.retrigger with lastFired := some now })
      ⟨h.serves.specs_eq, h.serves.unplanned⟩ hrecord

/-- After a periodic event that was due a rule plans ahead, whether it has fired or not. -/
theorem Timekeeping.plan_of_due (h : m.Timekeeping) (hdue : m.retrigger.due now = .ok true)
    (ho : (m.handleTick aliases w now).result = .ok (some o)) :
    ∃ t, (m.handleTick aliases w now).machine.retrigger.nextTick = some t ∧ now.Before t := by
  have hspecs := h.serves.ne_nil_of_due hdue
  obtain ⟨-, -, hnone⟩ | ⟨pass, _, retrigger, -, hpass, hresult, htick, hsome, hplan⟩ := handleTick_eq_ok ho
  · cases hnone
  · cases hsome
    subst hpass
    have hrule := (m.passed_handle aliases w (.tick now) now).rule
    have hpassed := h.plan_of_handle hresult
    have hplans : PlansFrom now { (m.handle aliases w (.tick now) now).machine with retrigger } := by
      cases hfired : o.fired with
      | true =>
        rw [if_pos hfired] at hpassed hplan
        rw [hplan]
        exact hpassed
      | false =>
        rw [if_neg (by simp [hfired])] at hpassed hplan
        rw [hpassed, Retrigger.consume] at hplan
        exact plansFrom_of_plan (hrule ▸ h.serves) hplan
    rw [htick]
    rwa [PlansFrom, hrule, if_neg hspecs] at hplans

end

end Machine

namespace World

def RulesReached (w : World) : Prop := ∀ m ∈ w.engine.book.machines, m.Reached

variable {w : World}

theorem RulesReached.load (h : w.RulesReached) (rs : RuleSet) (now : Option Moment) :
    (w.load rs now).1.RulesReached := by
  rw [World.load, Engine.load]
  cases hbuild : RuleBook.build rs (now.getD w.platform.now) w.platform.solar with
  | error fault => exact h
  | ok book => exact fun m hm => .loaded hbuild hm

theorem passLaw_rulesReached : PassLaw (fun _ => True) RulesReached :=
  passLaw_of_frame (fun hbook _ _ _ _ h m hm => h m (hbook ▸ hm)) fun now _ h => h.load _ now

theorem invariant_rulesReached : Invariant RulesReached where
  bus _ h := h
  queue _ _ h := h
  report _ h := h
  platform _ h := h
  published _ h := h
  processOne {w} e h := by
    refine passAll_keeps (fun {v index m rest} hm hv _ _ => ?_) h (Nat.le_refl _) fun _ => List.drop_zero
    have hactions := Action.allLoadOnly_true m.rule.actions
    have hpass := passLaw_rulesReached.handle hactions w.engine.book.aliases e w.platform.now hv
    have hvisited := (h m hm).visited (.event w.engine.book.aliases v e w.platform.now)
    exact forall_mem_storeMachine hpass hvisited _ index
  tickAll {w} now h := by
    refine tickAll_keeps (fun {v index m rest} hm hv _ _ => ?_) h (Nat.le_refl _) fun _ => List.drop_zero
    have hactions := Action.allLoadOnly_true m.rule.actions
    have hpass := passLaw_rulesReached.handleTick hactions (w.tickRound now).aliases (w.tickRound now).now hv
    have hvisited := (h m hm).visited (.tick (w.tickRound now).aliases v (w.tickRound now).now)
    exact forall_mem_storeMachine hpass hvisited _ index

/-- After a load every call finds the rules in states that they can come to. -/
theorem reached_of_run {w' : World} {rs : RuleSet} {now : Option Moment} (hload : w.load rs now = (w', .ok ()))
    (fuel : Nat) (calls : List Call) : ∀ m ∈ (w'.run fuel calls).engine.book.machines, m.Reached := by
  obtain ⟨book, hbuild, rfl⟩ := build_of_load hload
  exact invariant_rulesReached.run fuel calls fun m hm => .loaded hbuild hm

end World

namespace Machine

variable {m : Machine}

/-- Only a fire has effects, and a fire has all of them. A pass that comes to an outcome has run every action of the
rule in order if the rule fired, has begun its cooldown, has recorded and counted the fire, and has planned the next
periodic fire; if the rule did not fire, nothing has changed. A periodic event that was due is passed over in any
case. -/
theorem only_fires_have_effects (h : m.Reached) (aliases : AliasRegistry) (w : World) (now : Moment) :
    (∀ e o, (m.handle aliases w e now).result = .ok o →
      let after := m.handle aliases w e now
      ∃ p : Pass, p.event = e ∧ p.outcome = o ∧ o.time = now ∧
        m.Completed aliases w p after.machine after.world ∧
        if o.fired then after.machine.PlansFrom now ∧
          after.world.engine.firedCount m.rule.name = w.engine.firedCount m.rule.name + 1
        else after.machine.retrigger.nextTick = m.retrigger.nextTick) ∧
    ∀ x, (m.handleTick aliases w now).result = .ok x →
      let after := m.handleTick aliases w now
      match x with
      | none => after.machine = m ∧ after.world = w
      | some o => ∃ p : Pass, p.event = .tick now ∧ p.outcome = o ∧ o.time = now ∧
        m.Completed aliases w p after.machine after.world ∧
        (o.fired = true → after.world.engine.firedCount m.rule.name = w.engine.firedCount m.rule.name + 1) ∧
        m.retrigger.due now = .ok true ∧ ∃ t, after.machine.retrigger.nextTick = some t ∧ now.Before t := by
  have hkeeps := h.timekeeping
  have hself := Document.agrees_self_of_isScalar hkeeps.name
  refine ⟨fun e o ho => ?_, fun x hx => ?_⟩
  · obtain ⟨p, hevent, hp, htime, hcompleted⟩ := completed_handle ho
    refine ⟨p, hevent, hp, htime, hcompleted, ?_⟩
    have hplan := hkeeps.plan_of_handle ho
    cases hfired : o.fired with
    | true =>
      rw [if_pos hfired] at hplan
      have hcounted := hcompleted.counted (hp ▸ hfired) hkeeps.name hkeeps.name
      exact ⟨hplan, by simpa [hself] using hcounted⟩
    | false =>
      rw [if_neg (by simp [hfired])] at hplan
      simp [hplan]
  · obtain ⟨-, htick, rfl⟩ | ⟨_, o, _, hdue, -, -, -, rfl, -⟩ := handleTick_eq_ok hx
    · simp [htick]
    · obtain ⟨p, hevent, hp, htime, hcompleted⟩ := completed_handleTick hx
      refine ⟨p, hevent, hp, htime, hcompleted, fun hfired => ?_, hdue, hkeeps.plan_of_due hdue hx⟩
      have hcounted := hcompleted.counted (hp ▸ hfired) hkeeps.name hkeeps.name
      simpa [hself] using hcounted

/-- A rule that rings a bell which is stuck, when something comes from the door and once an hour. -/
def chiming : RuleSet :=
  { rules := [{
      name := .text "chime"
      triggers := [.device { target := .text "door", kind := .receivesUpdate }]
      periodic := [.every (.ofSeconds 3600)]
      actions := [.fail "stuck", .notify (.text "ding"), .counter (.text "bell") (.text "rings")] }] }

def hall : World :=
  { platform := { now := ⟨0, none⟩, catalog := { items := [{ name := "door", accepts := [.onOff] }] } } }

def quietHall : World := (hall.load chiming none).1

def doorbell : Event := { ref := some ⟨.item, "door"⟩, kind := .update, new := .onOff .on, time := ⟨0, none⟩ }

def chime : Machine := quietHall.engine.book.machines.headD default

/-- The rule after something came from the door, after something came again, and an hour later. -/
def rung : PassResult Outcome := chime.handle {} quietHall doorbell ⟨0, none⟩

def rungAgain : PassResult Outcome := rung.machine.handle {} rung.world doorbell ⟨0, none⟩

def rungHourly : PassResult (Option Outcome) := rungAgain.machine.handleTick {} rungAgain.world ⟨3600000000, none⟩

/-- Something comes from the door: the rule fires although its first action fails. Something comes again, and nothing
happens, since the cooldown is not over. An hour later the rule fires by itself. -/
theorem only_fires_have_effects_chiming :
    chime.Reached ∧ rung.machine.Reached ∧ rungAgain.machine.Reached ∧
    (∃ o, rung.result = .ok o ∧ o.fired = true ∧ rung.machine.PlansFrom ⟨0, none⟩ ∧
      ∃ p : Pass, p.outcome = o ∧ chime.Completed {} quietHall p rung.machine rung.world) ∧
    rung.world.engine.history.map (·.errors) = [["stuck"]] ∧ rung.world.platform.notes.toList = ["ding"] ∧
    (∃ o, rungAgain.result = .ok o ∧ o.fired = false ∧
      rungAgain.machine.retrigger.nextTick = rung.machine.retrigger.nextTick ∧
      ∃ p : Pass, p.outcome = o ∧ rung.machine.Completed {} rung.world p rungAgain.machine rungAgain.world) ∧
    ∃ o t, rungHourly.result = .ok (some o) ∧ o.fired = true ∧
      rungHourly.machine.retrigger.nextTick = some t ∧ Moment.Before ⟨3600000000, none⟩ t := by
  have hload : hall.load chiming none = (quietHall, .ok ()) := rfl
  have hm : chime.Reached := World.reached_of_run hload 0 [] chime (List.mem_singleton.mpr rfl)
  have hrung : rung.machine.Reached := hm.visited (.event {} quietHall doorbell ⟨0, none⟩)
  have hagain : rungAgain.machine.Reached := hrung.visited (.event {} rung.world doorbell ⟨0, none⟩)
  have hfires : rung.result.toOption.map (·.fired) = some true := by decide +kernel
  have herrors : rung.world.engine.history.map (·.errors) = [["stuck"]] := by decide +kernel
  have hnotes : rung.world.platform.notes.toList = ["ding"] := by decide +kernel
  have hrests : rungAgain.result.toOption.map (·.fired) = some false := by decide +kernel
  have htick : rungHourly.result.toOption.map (·.map (·.fired)) = some (some true) := by decide +kernel
  obtain ⟨o, ho, hfired⟩ := Option.map_eq_some_iff.mp hfires
  obtain ⟨o', ho', hrested⟩ := Option.map_eq_some_iff.mp hrests
  obtain ⟨x, hx, hsome⟩ := Option.map_eq_some_iff.mp htick
  obtain ⟨u, rfl, hticked⟩ := Option.map_eq_some_iff.mp hsome
  have ho := ok_of_toOption ho
  have ho' := ok_of_toOption ho'
  have hx := ok_of_toOption hx
  obtain ⟨p, -, hp, -, hcompleted, hplans⟩ := (only_fires_have_effects hm {} quietHall ⟨0, none⟩).1 doorbell o ho
  obtain ⟨q, -, hq, -, hcompleted', hkept⟩ := (only_fires_have_effects hrung {} rung.world ⟨0, none⟩).1 doorbell o' ho'
  obtain ⟨-, -, -, -, -, -, -, t, ht, hahead⟩ :=
    (only_fires_have_effects hagain {} rungAgain.world ⟨3600000000, none⟩).2 (some u) hx
  rw [if_pos hfired] at hplans
  rw [if_neg (by simp [hrested])] at hkept
  exact ⟨hm, hrung, hagain, ⟨o, ho, hfired, hplans.1, p, hp, hcompleted⟩, herrors, hnotes,
    ⟨o', ho', hrested, hkept, q, hq, hcompleted'⟩, ⟨u, t, hx, hticked, ht, hahead⟩⟩

end Machine
end Domotics
