import Domotics.Engine.Judge
import Domotics.Proofs.Result

/-!
What a judgement says. A rule is suppressed, has no trigger, fails or fires, and it fires exactly if no suppressor
holds, it runs at this time, its cooldown is over, and a trigger holds or the event is a periodic one.
-/

namespace Domotics

/-- The judgements that a rule can come to. Only a fault of the domain makes it fail, and it says so. -/
inductive Judgement.Formed : Judgement → Prop where
  | suppressed (reason : Reason) (absorbed : List Fault) (hreason : ∀ f, reason ≠ .fault f) :
      Formed ⟨.suppressed, reason, absorbed⟩
  | idle (absorbed : List Fault) : Formed ⟨.idle, .noTrigger, absorbed⟩
  | errored (f : Fault) (absorbed : List Fault) (hf : f.isDomain = true) : Formed ⟨.errored, .fault f, absorbed⟩
  | firing (absorbed : List Fault) : Formed ⟨.firing, .fired, absorbed⟩

def Rule.runsIn (r : Rule) : Window → Bool
  | .forbidden => false
  | .neutral => r.runsByDefault
  | .allowed => true

namespace Machine

open Result

variable {m : Machine} {s : Situation} {absorbed : List Fault} {j : Judgement}

structure Cleared (m : Machine) (s : Situation) : Prop where
  suppressors : (Expression.evaluateAny s m.rule.suppressors).result = .ok false
  window : ∃ window, m.rule.schedule.classify s.now s.solar = .ok window ∧ m.rule.runsIn window = true
  rested : m.retrigger.mayFire s.now = .ok true
  triggered : s.event.kind = .periodic ∨ (Expression.evaluateAny s m.rule.triggers).result = .ok true

theorem formed_of_judgeTriggers (h : m.judgeTriggers s absorbed = .ok j) :
    j.Formed ∧ (j.state = .firing →
      s.event.kind = .periodic ∨ (Expression.evaluateAny s m.rule.triggers).result = .ok true) := by
  rw [judgeTriggers] at h
  split at h
  · next hperiodic =>
    cases h
    exact ⟨.firing _, fun _ => .inl hperiodic⟩
  · dsimp only at h
    split at h
    · next htriggers =>
      cases h
      exact ⟨.firing _, fun _ => .inr htriggers⟩
    · cases h
      exact ⟨.idle _, nofun⟩
    · split at h
      · next hdomain =>
        cases h
        exact ⟨.errored _ _ hdomain, nofun⟩
      · cases h

theorem formed_of_judgeCooldown (h : m.judgeCooldown s absorbed = .ok j) :
    j.Formed ∧ (j.state = .firing → m.retrigger.mayFire s.now = .ok true ∧
      (s.event.kind = .periodic ∨ (Expression.evaluateAny s m.rule.triggers).result = .ok true)) := by
  obtain ⟨may, hmay, h⟩ := bind_eq_ok.mp h
  cases may with
  | true =>
    obtain ⟨hformed, htriggered⟩ := formed_of_judgeTriggers h
    exact ⟨hformed, fun hfiring => ⟨hmay, htriggered hfiring⟩⟩
  | false =>
    obtain ⟨remaining, -, h⟩ := bind_eq_ok.mp h
    cases h
    exact ⟨.suppressed _ _ (by simp), nofun⟩

/-- A judgement is one of these four, and a fire has passed every stage. -/
theorem formed_of_judge (h : m.judge s = .ok j) : j.Formed ∧ (j.state = .firing → m.Cleared s) := by
  rw [judge] at h
  split at h
  · cases h
    exact ⟨.suppressed _ _ (by simp), nofun⟩
  · next hsuppressors =>
    obtain ⟨window, hwindow, h⟩ := bind_eq_ok.mp h
    have hruns (hrule : m.rule.runsIn window = true)
        (h : m.judgeCooldown s (Expression.evaluateAny s m.rule.suppressors).absorbed = .ok j) :
        j.Formed ∧ (j.state = .firing → m.Cleared s) := by
      obtain ⟨hformed, hpassed⟩ := formed_of_judgeCooldown h
      exact ⟨hformed, fun hfiring =>
        ⟨hsuppressors, ⟨window, hwindow, hrule⟩, (hpassed hfiring).1, (hpassed hfiring).2⟩⟩
    cases window with
    | forbidden =>
      cases h
      exact ⟨.suppressed _ _ (by simp), nofun⟩
    | neutral =>
      dsimp only at h
      split at h
      · next hdefault => exact hruns hdefault h
      · cases h
        exact ⟨.suppressed _ _ (by simp), nofun⟩
    | allowed => exact hruns rfl h
  · split at h
    · next hdomain =>
      cases h
      exact ⟨.errored _ _ hdomain, nofun⟩
    · cases h

/-- A rule that nothing keeps from firing fires. -/
theorem Cleared.judge (h : m.Cleared s) : ∃ absorbed, m.judge s = .ok ⟨.firing, .fired, absorbed⟩ := by
  obtain ⟨window, hwindow, hruns⟩ := h.window
  have htriggers (absorbed : List Fault) :
      ∃ absorbed', m.judgeTriggers s absorbed = .ok ⟨.firing, .fired, absorbed'⟩ := by
    by_cases hperiodic : s.event.kind = .periodic
    · exact ⟨absorbed, if_pos hperiodic⟩
    · rw [judgeTriggers, if_neg hperiodic]
      simp only [h.triggered.resolve_left hperiodic]
      exact ⟨_, rfl⟩
  have hcooldown (absorbed : List Fault) : m.judgeCooldown s absorbed = m.judgeTriggers s absorbed := by
    rw [judgeCooldown, h.rested, ok_bind, if_pos rfl]
  rw [Machine.judge]
  simp only [h.suppressors, judgeSchedule, hwindow, ok_bind, hcooldown]
  cases window with
  | forbidden => cases hruns
  | neutral =>
    rw [Rule.runsIn] at hruns
    rw [if_pos hruns]
    exact htriggers _
  | allowed => exact htriggers _

theorem classify_of_judge (h : m.judge s = .ok j)
    (hsuppressors : (Expression.evaluateAny s m.rule.suppressors).result = .ok false) :
    ∃ window, m.rule.schedule.classify s.now s.solar = .ok window := by
  rw [judge] at h
  simp only [hsuppressors] at h
  obtain ⟨window, hwindow, -⟩ := bind_eq_ok.mp h
  exact ⟨window, hwindow⟩

end Machine
end Domotics
