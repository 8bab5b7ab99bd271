import Domotics.Proofs.Rehearsal.Prompt
import Domotics.Proofs.Run.Faults
import Domotics.Proofs.Time.Seconds
import Mathlib.Logic.Relation

/-!
Delays keep to the plan of wake-ups. The wake-ups that a delay delivers come one after the other, ahead of
the clock and up to the end of the delay; it ends if each of them does, and the clock is never told to
stand still or go back.
-/

namespace Domotics

theorem Service.trail_tick (s : Service) (fuel : Nat) (now : Option Moment) :
    s.world.trail <+: (s.tick fuel now).1.world.trail := by
  have hstays := World.stays_tick fuel s.world now
  rw [tick]
  split
  · exact List.prefix_rfl
  · rcases htick : s.world.tick fuel now with ⟨w, report | fault | _⟩
    all_goals rw [htick] at hstays
    all_goals exact hstays.trail

def Ending.returns {α : Type} : Ending α → Bool
  | returned _ => true
  | _ => false

namespace Rehearsal

open World Relation Result

variable {rs : RuleSet} {r r' : Rehearsal} {t finish : Moment} {wakeup : Option Moment}
  {ticks : List Moment} {service : Service} {report : Report} {fuel count : Nat}

theorem Prompt.arrive (h : Prompt rs r) (hwakeup : r.service.nextWakeup = .ok wakeup)
    (hlater : ∀ t ∈ wakeup, finish.Before t) : Prompt rs (r.atTime finish) where
  ready := ⟨h.ready.running, h.ready.atRest.stays (.quiet rfl rfl rfl rfl)⟩
  plans := by
    rw [Service.nextWakeup, if_pos h.ready.running] at hwakeup
    refine h.plans.step List.prefix_rfl fun _ htimed => ⟨.refl _, htimed.lastRuleSet, fun m hm => ?_⟩
    obtain ⟨hrule, hpunctual⟩ := htimed.machines m hm
    refine ⟨hrule, hpunctual.armed, fun u hu => ?_⟩
    obtain ⟨t, rfl, hle⟩ := Retrigger.notAfter_of_earliest hwakeup u
      (List.mem_filterMap.mpr ⟨m, hm, hu⟩)
    exact (hlater t rfl).trans_notAfter hle

/-- A wake-up that comes to its end plans ahead of itself. -/
theorem Prompt.wake (h : Prompt rs r)
    (htick : (r.atTime t).service.tick fuel (some t) = (service, .returned report)) :
    Prompt rs { r.atTime t with service } := by
  have hrunning : (r.atTime t).service.running = true := h.ready.running
  have hrest : (r.atTime t).service.world.AtRest :=
    h.ready.atRest.stays (.quiet rfl rfl rfl rfl)
  have hstays := stays_tick fuel (r.atTime t).service.world (some t)
  rw [Service.tick, if_neg (by simp [hrunning])] at htick
  rcases hworld : (r.atTime t).service.world.tick fuel (some t) with ⟨w, report' | fault | _⟩
  all_goals rw [hworld] at htick
  · cases htick
    rw [hworld] at hstays
    have hplans : PlansAhead rs t w := by
      refine ⟨List.nil_prefix, fun hloads => ?_⟩
      have htimed := h.plans.holds (hloads.of_prefix hstays.trail)
      have hstart : Timed rs t (·.Armed) (r.atTime t).service.world :=
        ⟨.refl _, htimed.lastRuleSet, (htimed.mono fun _ => (·.armed)).machines⟩
      have hend := hstart.tick (fun _ _ => Moment.NotAfter.trans) hrest.draining (by rw [hworld])
      rw [hworld] at hend
      exact hend (hloads.later List.nil_prefix)
    exact ⟨⟨hrunning, (hrest.stays hstays).stays (.quiet rfl rfl rfl rfl)⟩,
      (law_plansAhead rs t).report report hplans⟩
  · cases htick
  · cases htick

theorem Prompt.waits (h : Prompt rs r) (hwaits : Waits finish r ticks r') : Prompt rs r' := by
  induction hwaits with
  | arrive hwakeup hlater hclock => exact h.arrive hwakeup hlater
  | wake _ _ _ htick _ _ _ ih => exact ih (h.wake htick)

/-- A step keeps the plans ahead of the clock. -/
theorem Prompt.step (h : Prompt rs r) (hstep : Step r r') : Prompt rs r' := by
  cases hstep with
  | updateState hr => exact h.updateState hr
  | updateStatus hr => exact h.updateStatus hr
  | sendCommand hr => exact h.sendCommand hr
  | delay hr =>
    obtain ⟨d, finish, ticks, -, -, hwaits⟩ := delay_eq_returned hr
    exact h.waits hwaits
  | seedState hr => exact h.furnishes (furnishes_seedState hr)
  | addThing hr => exact h.furnishes (furnishes_addThing hr)
  | addChannel hr => exact h.furnishes (furnishes_addChannel hr)
  | addItem hr => exact h.furnishes (furnishes_addItem hr)

theorem trail_tick_atTime {ending : Ending Report}
    (htick : (r.atTime t).service.tick fuel (some t) = (service, ending)) :
    r.service.world.trail <+: service.world.trail := by
  have hticked := (r.atTime t).service.trail_tick fuel (some t)
  rwa [htick] at hticked

theorem Waits.trail (h : Waits finish r ticks r') : r.service.world.trail <+: r'.service.world.trail := by
  induction h with
  | arrive => exact List.prefix_rfl
  | wake _ _ _ htick _ _ _ ih => exact (trail_tick_atTime htick).trans ih

/-- How far a wake-up is from the end of a wait, which it does not come after. -/
def distance (finish : Moment) (wakeup : Option Moment) : Nat :=
  wakeup.elim 0 fun t => (finish.instant - t.instant + 1).toNat

variable {seconds : Document}

/-- A rehearsal of a rule that fires when a lamp is updated and every ten seconds, and then loads the rules
anew. -/
def reloading (time : Option Moment) : RuleSet :=
  { rules := [{
      name := .text "again"
      triggers := [.device { target := .text "lamp", kind := .receivesUpdate }]
      periodic := [.every (.ofSeconds 10)]
      actions := [.reload time] }] }

def three : Moment := .onDay 739256 54000000000 (some 0)

def four : Moment := .onDay 739256 57600000000 (some 0)

def furnished (time : Option Moment) : Result Rehearsal := do
  let r ← begin (reloading time) four none
  let (_, r) ← r.addItem "lamp" [.onOff] none
  return r

def updated (time : Option Moment) : Rehearsal × Ending Description :=
  ((furnished time).toOption.getD default).updateState 10 (.text "lamp") (.onOff .on)

end Rehearsal
end Domotics
