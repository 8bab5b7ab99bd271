import Domotics.Proofs.Rehearsal.Waiting
import Domotics.Proofs.Run.Punctual
import Domotics.Proofs.Service.Completion

/-!
Rehearsals do not fall behind their own clock. Whatever a rehearsal has gone through, as long as no step of
it was refused and no action has loaded the rules for a time that had passed, the next wake-up lies ahead of
the clock.
-/

namespace Domotics

theorem Service.loadRuleSet_eq_ok {s : Service} {rs : RuleSet} (h : s.running = true)
    (hok : (s.loadRuleSet rs).2 = .ok ()) : ∃ w, s.world.load rs none = (w, .ok ()) ∧
      (s.loadRuleSet rs).1 = { s with world := w, ruleSet := some rs } := by
  rw [loadRuleSet, if_neg (by simp [h])] at hok ⊢
  split at hok
  · rename_i w hload
    exact ⟨w, hload, rfl⟩
  · cases hok

namespace Rehearsal

open World

/-- A step of a rehearsal that is not refused and does not go on forever. -/
inductive Step : Rehearsal → Rehearsal → Prop where
  | updateState {r r' : Rehearsal} {fuel : Nat} {target : Document} {v : Value} {d : Description}
      (h : r.updateState fuel target v = (r', .returned d)) : Step r r'
  | updateStatus {r r' : Rehearsal} {fuel : Nat} {target : Document} {v : Value} {d : Description}
      (h : r.updateStatus fuel target v = (r', .returned d)) : Step r r'
  | sendCommand {r r' : Rehearsal} {fuel : Nat} {target : Document} {v : Value} {d : Description}
      (h : r.sendCommand fuel target v = (r', .returned d)) : Step r r'
  | delay {r r' : Rehearsal} {fuel : Nat} {seconds : Document}
      (h : r.delay fuel seconds = (r', .returned ())) : Step r r'
  | seedState {r r' : Rehearsal} {target : Document} {v : Value} {d : Description}
      (h : r.seedState target v = .ok (d, r')) : Step r r'
  | addThing {r r' : Rehearsal} {label : String} {uid location : Option String} {d : Description}
      (h : r.addThing label uid location = .ok (d, r')) : Step r r'
  | addChannel {r r' : Rehearsal} {label : String} {accepts : List ValueType}
      {uid location : Option String} {d : Description}
      (h : r.addChannel label accepts uid location = (r', .ok d)) : Step r r'
  | addItem {r r' : Rehearsal} {name : String} {accepts : List ValueType} {channel : Option String}
      {d : Description} (h : r.addItem name accepts channel = .ok (d, r')) : Step r r'

inductive Reached (rs : RuleSet) (start : Moment) (solar : Option SolarCalendar) : Rehearsal → Prop where
  | begin {r : Rehearsal} (h : begin rs start solar = .ok r) : Reached rs start solar r
  | step {r r' : Rehearsal} (hr : Reached rs start solar r) (h : Step r r') : Reached rs start solar r'

/-- Devices and states are set up; the clock, the bus and the rules stay. -/
def Furnishes (r r' : Rehearsal) : Prop :=
  ∃ p : Platform, p.now = r.service.world.platform.now ∧
    p.attached = r.service.world.platform.attached ∧
    r' = r.withWorld { r.service.world with platform := p }

/-- The plans of all rules lie ahead of a time, if no rules have been loaded for a time that had passed. -/
def PlansAhead (rs : RuleSet) (now : Moment) : World → Prop :=
  Provided [] (fun armed present => present.NotAfter armed) (Timed rs now (·.Punctual now))

structure Prompt (rs : RuleSet) (r : Rehearsal) : Prop where
  ready : r.service.Ready
  plans : PlansAhead rs r.clock.now r.service.world

variable {rs : RuleSet} {r r' : Rehearsal} {fuel : Nat} {target : Document} {v : Value}

theorem Prompt.nextWakeup (h : Prompt rs r) (hloads : r.service.world.LoadsAhead) :
    ∃ wakeup, r.service.nextWakeup = .ok wakeup ∧ ∀ t ∈ wakeup, r.clock.now.Before t := by
  rw [Service.nextWakeup, if_pos h.ready.running]
  exact Engine.nextWakeup_of_punctual fun m hm => ((h.plans.holds hloads).machines m hm).2

theorem passLaw_plansAhead (rs : RuleSet) (now : Moment) : PassLaw (fun _ => True) (PlansAhead rs now) :=
  passLaw_timed fun _ _ => Moment.NotAfter.trans

theorem law_plansAhead (rs : RuleSet) (now : Moment) : Law (PlansAhead rs now) :=
  law_timed fun _ _ => Moment.NotAfter.trans

theorem furnishes_withCatalog (r : Rehearsal) (c : Catalog) : r.Furnishes (r.withCatalog c) :=
  ⟨{ r.service.world.platform with catalog := c }, rfl, rfl, rfl⟩

theorem Furnishes.trans {r'' : Rehearsal} (h₁ : r.Furnishes r') (h₂ : r'.Furnishes r'') :
    r.Furnishes r'' := by
  obtain ⟨_, hnow, hattached, rfl⟩ := h₁
  obtain ⟨p, hnow', hattached', rfl⟩ := h₂
  exact ⟨p, hnow'.trans hnow, hattached'.trans hattached, rfl⟩

theorem furnishes_seedState {d : Description} (h : r.seedState target v = .ok (d, r')) :
    r.Furnishes r' := by
  obtain ⟨found, -, h⟩ := Result.bind_eq_ok.mp h
  cases h
  exact ⟨r.service.world.platform.setState d.ref v, rfl, rfl, rfl⟩

theorem furnishes_addThing {label : String} {uid location : Option String} {d : Description}
    (h : r.addThing label uid location = .ok (d, r')) : r.Furnishes r' := by
  obtain ⟨⟨_, c⟩, -, h⟩ := Result.bind_eq_ok.mp h
  cases h
  exact furnishes_withCatalog r c

theorem furnishes_addItem {name : String} {accepts : List ValueType} {channel : Option String}
    {d : Description} (h : r.addItem name accepts channel = .ok (d, r')) : r.Furnishes r' := by
  rw [addItem] at h
  split at h
  · cases h
  · obtain ⟨⟨_, c⟩, -, h⟩ := Result.bind_eq_ok.mp h
    cases h
    exact furnishes_withCatalog r c

theorem furnishes_addChannel {label : String} {accepts : List ValueType}
    {uid location : Option String} {d : Description}
    (h : r.addChannel label accepts uid location = (r', .ok d)) : r.Furnishes r' := by
  rw [addChannel] at h
  split at h
  · cases h
  · dsimp only at h
    split at h
    · cases h
    · split at h
      · cases h
      · split at h
        · cases h
        · -- The thing that the channel belongs to, if it had to be added.
          rename_i withThing hthing
          have hadded : r.Furnishes withThing := by
            split at hthing
            · cases hthing
              exact ⟨_, rfl, rfl, rfl⟩
            · obtain ⟨⟨_, c⟩, -, hthing⟩ := Result.bind_eq_ok.mp hthing
              cases hthing
              exact furnishes_withCatalog r c
          split at h
          · cases h
          · cases h
            exact hadded.trans (furnishes_withCatalog withThing _)

theorem Prompt.furnishes (h : Prompt rs r) (hr : r.Furnishes r') : Prompt rs r' := by
  obtain ⟨p, hnow, hattached, rfl⟩ := hr
  exact ⟨⟨h.ready.running, h.ready.atRest.stays (.quiet rfl rfl hattached rfl)⟩,
    h.plans.step List.prefix_rfl fun _ htimed => htimed.frame rfl rfl hnow⟩

theorem Prompt.withTarget (h : Prompt rs r) {act : World → Reference → World × Ending Unit}
    {d : Description} (hact : ∀ ref, (act r.service.world ref).2 ≠ .unsettled →
      r.service.world.Rests (act r.service.world ref).1 ∧
        PlansAhead rs r.clock.now (act r.service.world ref).1)
    (hr : r.withTarget target v act = (r', .returned d)) : Prompt rs r' := by
  rw [Rehearsal.withTarget] at hr
  cases hresolve : r.resolve target v with
  | error fault => simp [hresolve] at hr
  | ok found =>
    simp only [hresolve, Prod.mk.injEq] at hr
    obtain ⟨rfl, hending⟩ := hr
    have hends : (act r.service.world found.ref).2 ≠ .unsettled := by
      intro hunsettled
      rw [hunsettled] at hending
      cases hending
    obtain ⟨hrests, hplans⟩ := hact found.ref hends
    exact ⟨⟨h.ready.running, hrests.1⟩, hplans⟩

theorem Prompt.updateState (h : Prompt rs r) {d : Description}
    (hr : r.updateState fuel target v = (r', .returned d)) : Prompt rs r' := by
  refine h.withTarget (fun ref hends => ⟨rests_updateState fuel h.ready.atRest ref v _ hends, ?_⟩) hr
  have devices := passLaw_plansAhead rs r.clock.now
  exact (law_plansAhead rs r.clock.now).feed.updateState fuel ref v _ (devices.update ref v _ h.plans)

theorem Prompt.sendCommand (h : Prompt rs r) {d : Description}
    (hr : r.sendCommand fuel target v = (r', .returned d)) : Prompt rs r' := by
  refine h.withTarget (fun ref hends => ⟨rests_sendCommand fuel h.ready.atRest ref v _ hends, ?_⟩) hr
  have devices := passLaw_plansAhead rs r.clock.now
  exact (law_plansAhead rs r.clock.now).feed.sendCommand fuel ref v _ (devices.command ref v _ h.plans)
    (devices.update ref v _)

theorem Prompt.updateStatus (h : Prompt rs r) {d : Description}
    (hr : r.updateStatus fuel target v = (r', .returned d)) : Prompt rs r' := by
  unfold Rehearsal.updateStatus at hr
  split at hr
  · exact h.updateState hr
  · cases hr

theorem begin_eq_ok {start : Moment} {solar : Option SolarCalendar} (h : begin rs start solar = .ok r) :
    ∃ s : Service, s.Ready ∧ s.world.platform.now = start ∧ s.world.engine = {} ∧
      (s.loadRuleSet rs).2 = .ok () ∧ r = ⟨(s.loadRuleSet rs).1, ⟨start⟩⟩ := by
  obtain ⟨clock, hclock, h⟩ := Result.bind_eq_ok.mp h
  obtain rfl : clock = ⟨start⟩ := by
    rw [VirtualClock.start] at hclock
    split at hclock
    · cases hclock
    · cases hclock
      rfl
  let fresh : Service := { world := { platform :=
    { now := start, solar := solar.getD { offset := start.offset } } } }
  obtain ⟨_, -, h⟩ := Result.bind_eq_ok.mp h
  obtain ⟨_, hok, h⟩ := Result.bind_eq_ok.mp h
  cases h
  exact ⟨fresh.attachToNewBus.1, (Service.ready_of_attachToNewBus rfl rfl rfl).1, rfl, rfl, hok, rfl⟩

end Rehearsal
end Domotics
