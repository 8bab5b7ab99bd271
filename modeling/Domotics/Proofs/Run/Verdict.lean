import Domotics.Proofs.Run.Pass

/-!
The ways in which a pass of a rule can go, with all that it leaves: the judgement breaks, the rule does
not fire, it fires, or it fires and planning its next periodic fire breaks.
-/

namespace Domotics.Machine

variable (m : Machine) (aliases : AliasRegistry) (w : World) (e : Event) (now : Moment)

/-- The judgement of a rule on an event whose value it has noted. -/
def verdict : Result Judgement :=
  (m.noting e).judge
    ((m.noting e).situation (w.surroundings aliases) e (m.cache.valueBefore e) now)

def afterActions : World :=
  (Action.runEach ⟨{ rule := m.rule.name, event := e, now, aliases }, w⟩ m.rule.actions).1.world

theorem fire_of_planned {retrigger : Retrigger}
    (h : m.retrigger.recordFired now (m.afterActions aliases w e now).platform.solar =
      (retrigger, .ok ())) :
    ∃ record : FiringRecord, record.rule = m.rule.name ∧ m.fire aliases w e now = ⟨{ m with retrigger },
      { m.afterActions aliases w e now with
        engine := (m.afterActions aliases w e now).engine.recordFire record }, .ok ()⟩ := by
  rw [afterActions] at h
  rw [fire]
  simp only [h]
  exact ⟨_, rfl, rfl⟩

theorem fire_of_unplanned {retrigger : Retrigger} {fault : Fault}
    (h : m.retrigger.recordFired now (m.afterActions aliases w e now).platform.solar =
      (retrigger, .error fault)) :
    m.fire aliases w e now =
      ⟨{ m with retrigger }, m.afterActions aliases w e now, .error fault⟩ := by
  rw [afterActions] at h
  rw [fire]
  simp only [h]
  rfl

/-- The ways in which a pass over an event can go. -/
inductive Handled : PassResult Outcome → Prop where
  | broke {fault : Fault} (hverdict : m.verdict aliases w e now = .error fault) :
      Handled ⟨{ m.noting e with phase := .idle },
        (w.mark (.began m.rule.name e)).mark (.broke m.rule.name e fault), .error fault⟩
  | rested {j : Judgement} (hverdict : m.verdict aliases w e now = .ok j)
      (hrests : j.state ≠ .firing) :
      Handled ⟨{ m.noting e with phase := .idle },
        (w.mark (.began m.rule.name e)).mark (.passed ⟨m.rule.name, now, e, j⟩),
        .ok ⟨m.rule.name, now, e, j⟩⟩
  | fired {j : Judgement} {after : World} {retrigger : Retrigger} (record : FiringRecord)
      (hverdict : m.verdict aliases w e now = .ok j) (hfires : j.state = .firing)
      (hafter : after = m.afterActions aliases (w.mark (.began m.rule.name e)) e now)
      (hrecord : m.retrigger.recordFired now after.platform.solar = (retrigger, .ok ()))
      (hname : record.rule = m.rule.name) :
      Handled ⟨{ m.noting e with retrigger, phase := .idle },
        World.mark { after with engine := after.engine.recordFire record }
          (.passed ⟨m.rule.name, now, e, j⟩),
        .ok ⟨m.rule.name, now, e, j⟩⟩
  | unplanned {j : Judgement} {after : World} {retrigger : Retrigger} {fault : Fault}
      (hverdict : m.verdict aliases w e now = .ok j) (hfires : j.state = .firing)
      (hafter : after = m.afterActions aliases (w.mark (.began m.rule.name e)) e now)
      (hrecord : m.retrigger.recordFired now after.platform.solar = (retrigger, .error fault)) :
      Handled ⟨{ m.noting e with retrigger, phase := .idle },
        after.mark (.broke m.rule.name e fault), .error fault⟩

theorem handled_handle : Handled m aliases w e now (m.handle aliases w e now) := by
  let begun := w.mark (.began m.rule.name e)
  cases hverdict : m.verdict aliases w e now with
  | error fault =>
    have hattempt := m.attempt_of_error aliases begun e now hverdict
    rw [handle, hattempt]
    exact .broke hverdict
  | ok j =>
    have hattempt := m.attempt_of_ok aliases begun e now hverdict
    rw [handle, hattempt, conclude]
    by_cases hfiring : j.state = .firing
    · rw [if_pos hfiring]
      rcases hrecord : m.retrigger.recordFired now
        (m.afterActions aliases begun e now).platform.solar with ⟨retrigger, fault | ⟨⟩⟩
      · have hfire := fire_of_unplanned { m.noting e with phase := .firing } aliases begun e now hrecord
        rw [hfire]
        exact .unplanned hverdict hfiring rfl hrecord
      · obtain ⟨record, hname, hfire⟩ :=
          fire_of_planned { m.noting e with phase := .firing } aliases begun e now hrecord
        rw [hfire]
        exact .fired record hverdict hfiring rfl hrecord hname
    · simp only [hfiring, if_false]
      exact .rested hverdict hfiring

variable {m aliases w e now}

theorem verdict_of_handle {o : Outcome} (h : (m.handle aliases w e now).result = .ok o) :
    ∃ j, m.verdict aliases w e now = .ok j ∧ o = ⟨m.rule.name, now, e, j⟩ := by
  have hhandled := m.handled_handle aliases w e now
  generalize m.handle aliases w e now = pass at h hhandled
  cases hhandled with
  | broke => cases h
  | rested hverdict =>
    cases h
    exact ⟨_, hverdict, rfl⟩
  | fired _ hverdict =>
    cases h
    exact ⟨_, hverdict, rfl⟩
  | unplanned => cases h

/-- A periodic event that does not break: none is due, or there is a pass over it, after which a rule that did not
fire plans the next. -/
theorem handleTick_eq_ok {x : Option Outcome} (h : (m.handleTick aliases w now).result = .ok x) :
    (m.retrigger.due now = .ok false ∧ m.handleTick aliases w now = ⟨m, w, .ok none⟩ ∧ x = none) ∨
    ∃ pass o retrigger, m.retrigger.due now = .ok true ∧ m.handle aliases w (.tick now) now = pass ∧
      pass.result = .ok o ∧ m.handleTick aliases w now = ⟨{ pass.machine with retrigger }, pass.world, .ok (some o)⟩ ∧
      x = some o ∧ if o.fired then retrigger = pass.machine.retrigger
        else pass.machine.retrigger.consume now w.platform.solar = (retrigger, .ok ()) := by
  rw [handleTick] at h ⊢
  rcases hdue : m.retrigger.due now with fault | due
  · simp only [hdue] at h
    cases h
  · cases due with
    | false =>
      simp only [hdue] at h ⊢
      cases h
      exact .inl ⟨trivial, trivial, rfl⟩
    | true =>
      simp only [hdue] at h ⊢
      generalize m.handle aliases w (.tick now) now = pass at h ⊢
      rcases hresult : pass.result with fault | o
      · simp only [hresult] at h
        cases h
      · simp only [hresult] at h ⊢
        by_cases hfired : o.fired = true
        · rw [if_pos hfired] at h ⊢
          cases h
          exact .inr ⟨pass, o, pass.machine.retrigger, trivial, rfl, hresult, rfl, rfl, by rw [if_pos hfired]⟩
        · rw [if_neg hfired] at h ⊢
          rcases hconsume : pass.machine.retrigger.consume now w.platform.solar with ⟨retrigger, fault | ⟨⟩⟩
          · simp only [hconsume] at h
            cases h
          · simp only [hconsume] at h
            cases h
            exact .inr ⟨pass, o, retrigger, trivial, rfl, hresult, rfl, rfl, by rwa [if_neg hfired]⟩

end Domotics.Machine
