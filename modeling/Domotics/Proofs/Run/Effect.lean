import Domotics.Proofs.Engine.Judgement
import Domotics.Proofs.Engine.Record
import Domotics.Proofs.Run.Deed

/-!
What a pass does that comes to an outcome. A rule that fires runs each of its actions once, however each of them ends;
then its cooldown begins, and the fire is recorded and counted. A rule that does not fire leaves everything as it was.
-/

namespace Domotics

open Result

namespace Action

/-- Some actions are run one after the other, each once and each with its own answer, whatever the answers are. -/
inductive Performs : FiringState → List (Action × Result Unit) → FiringState → Prop where
  | nil (s : FiringState) : Performs s [] s
  | cons {s s' : FiringState} {a : Action} {rest : List (Action × Result Unit)}
      (later : Performs (perform s a).1 rest s') : Performs s ((a, (perform s a).2) :: rest) s'

def failure? : Action × Result Unit → Option String
  | (_, .ok ()) => none
  | (_, .error fault) => some fault.message

def failures (runs : List (Action × Result Unit)) : List String := runs.filterMap failure?

theorem performs_runEach (s : FiringState) (actions : List Action) : ∃ runs,
    Performs s runs (runEach s actions).1 ∧ runs.map (·.1) = actions ∧ (runEach s actions).2 = failures runs := by
  induction actions generalizing s with
  | nil => exact ⟨[], .nil s, rfl, rfl⟩
  | cons a rest ih =>
    obtain ⟨runs, hperforms, hactions, hfailures⟩ := ih (perform s a).1
    refine ⟨(a, (perform s a).2) :: runs, ?_, by rw [List.map_cons, hactions], ?_⟩
    · have hlater : (runEach s (a :: rest)).1 = (runEach (perform s a).1 rest).1 := by
        rw [runEach]
        rcases perform s a with ⟨t, fault | ⟨⟩⟩ <;> rfl
      rw [hlater]
      exact .cons hperforms
    · rw [runEach]
      rcases hfirst : perform s a with ⟨t, fault | ⟨⟩⟩
      all_goals rw [hfirst] at hfailures
      · exact congrArg (fault.message :: ·) hfailures
      · exact hfailures

end Action

def Rule.record (r : Rule) (e : Event) (now : Moment) (errors : List String) : FiringRecord where
  rule := r.name
  time := now
  kind := e.kind
  target := e.ref
  invoked := r.actions.length
  errors

namespace World

/-- The record of fires is left alone by the actions of rules, even by those that load rules. -/
theorem actionLaw_history (history : List FiringRecord) (counts : List (Document × Nat)) :
    ActionLaw (fun _ => True) fun w => w.engine.history = history ∧ w.engine.fireCounts = counts where
  bus _ h := h
  queue _ _ h := h
  report _ h := h
  update _ _ _ h := by rw [noted]; split <;> exact h
  command _ _ _ h := by rw [noted]; split <;> exact h
  note _ h := h
  services _ _ h := h
  mark _ _ h := h
  reload {w} time _ h := by
    apply reload_keeps (P := fun w => w.engine.history = history ∧ w.engine.fireCounts = counts) time fun _ _ h => h
    rw [load, Engine.load]
    cases RuleBook.build w.lastRuleSet (time.getD w.platform.now) w.platform.solar <;> exact h

end World

namespace Machine

/-- What a fire has done: the actions of the rule were run one after the other, each once and however each of them
ended; the cooldown began; and the fire was recorded and counted. -/
structure Fired (m : Machine) (aliases : AliasRegistry) (w : World) (p : Pass) (m' : Machine) (w' : World) :
    Prop where
  effects : ∃ runs s,
    Action.Performs ⟨{ rule := m.rule.name, event := p.event, now := p.outcome.time, aliases },
      w.mark (.began m.rule.name p.event)⟩ runs s ∧
    runs.map (·.1) = m.rule.actions ∧
    w' = World.mark { s.world with
      engine := s.world.engine.recordFire (m.rule.record p.event p.outcome.time (Action.failures runs)) }
        (.passed p.outcome) ∧
    w'.engine.history = Engine.lastOf Engine.historySize
      (w.engine.history ++ [m.rule.record p.event p.outcome.time (Action.failures runs)])
  counts : w'.engine.fireCounts = Engine.countUp m.rule.name w.engine.fireCounts
  lastFired : m'.retrigger.lastFired = some p.outcome.time

/-- What a pass has done that did not fire: nothing but being noted. -/
structure Unmoved (m : Machine) (w : World) (p : Pass) (m' : Machine) (w' : World) : Prop where
  world : w' = (w.mark (.began m.rule.name p.event)).mark (.passed p.outcome)
  platform : w'.platform = w.platform
  engine : w'.engine = w.engine
  lastFired : m'.retrigger.lastFired = m.retrigger.lastFired

structure Completed (m : Machine) (aliases : AliasRegistry) (w : World) (p : Pass) (m' : Machine) (w' : World) :
    Prop where
  rule : p.rule = m.rule
  whole : p.Whole
  formed : p.outcome.judgement.Formed
  trail : w'.trail = w.trail ++ p.trail
  effects : match p.outcome.judgement.state with
    | .firing => m.Fired aliases w p m' w'
    | .suppressed | .idle | .errored => m.Unmoved w p m' w'
    | .evaluating => False

section

variable {m : Machine} {aliases : AliasRegistry} {w : World} {e : Event} {now : Moment}

theorem fire_eq_ok (h : (m.fire aliases w e now).result = .ok ()) : ∃ runs s retrigger,
    Action.Performs ⟨{ rule := m.rule.name, event := e, now, aliases }, w⟩ runs s ∧
    runs.map (·.1) = m.rule.actions ∧
    s.world.engine.history = w.engine.history ∧ s.world.engine.fireCounts = w.engine.fireCounts ∧
    m.retrigger.recordFired now s.world.platform.solar = (retrigger, .ok ()) ∧
    m.fire aliases w e now = ⟨{ m with retrigger }, { s.world with
      engine := s.world.engine.recordFire (m.rule.record e now (Action.failures runs)) }, .ok ()⟩ := by
  let start : FiringState := ⟨{ rule := m.rule.name, event := e, now, aliases }, w⟩
  obtain ⟨runs, hperforms, hactions, hfailures⟩ := Action.performs_runEach start m.rule.actions
  obtain ⟨hhistory, hcounts⟩ := (World.actionLaw_history w.engine.history w.engine.fireCounts).runEach
    (s := start) (Action.allLoadOnly_true m.rule.actions) ⟨rfl, rfl⟩
  rw [fire] at h ⊢
  simp only at h ⊢
  rcases hrecord : m.retrigger.recordFired now (Action.runEach start m.rule.actions).1.world.platform.solar with
    ⟨retrigger, fault | ⟨⟩⟩
  · simp only [start, hrecord] at h
    cases h
  · refine ⟨runs, _, retrigger, hperforms, hactions, hhistory, hcounts, hrecord, ?_⟩
    rw [← hfailures]
    rfl

theorem handle_of_firing {o : Outcome} (h : (m.handle aliases w e now).result = .ok o)
    (hfires : o.judgement.state = .firing) : ∃ runs s retrigger,
      Action.Performs ⟨{ rule := m.rule.name, event := e, now, aliases }, w.mark (.began m.rule.name e)⟩ runs s ∧
      runs.map (·.1) = m.rule.actions ∧
      s.world.engine.history = w.engine.history ∧ s.world.engine.fireCounts = w.engine.fireCounts ∧
      m.retrigger.recordFired now s.world.platform.solar = (retrigger, .ok ()) ∧
      m.handle aliases w e now = ⟨{ m.noting e with retrigger, phase := .idle },
        World.mark { s.world with
          engine := s.world.engine.recordFire (m.rule.record e now (Action.failures runs)) } (.passed o), .ok o⟩ := by
  obtain ⟨j, hverdict, rfl⟩ := verdict_of_handle h
  rw [handle, m.attempt_of_ok aliases (w.mark (.began m.rule.name e)) e now hverdict, conclude, if_pos hfires] at h ⊢
  rcases hfire : (({ m.noting e with phase := .firing } : Machine).fire aliases (w.mark (.began m.rule.name e)) e
    now).result with fault | ⟨⟩
  · simp only [hfire] at h
    cases h
  · obtain ⟨runs, s, retrigger, hperforms, hactions, hhistory, hcounts, hrecord, heq⟩ := fire_eq_ok hfire
    simp only [heq] at h ⊢
    exact ⟨runs, s, retrigger, hperforms, hactions, hhistory, hcounts, hrecord, rfl⟩

theorem handle_of_not_firing {o : Outcome} (h : (m.handle aliases w e now).result = .ok o)
    (hrests : o.judgement.state ≠ .firing) : m.handle aliases w e now =
      ⟨{ m.noting e with phase := .idle }, (w.mark (.began m.rule.name e)).mark (.passed o), .ok o⟩ := by
  obtain ⟨j, hverdict, rfl⟩ := verdict_of_handle h
  rw [handle, m.attempt_of_ok aliases (w.mark (.began m.rule.name e)) e now hverdict, conclude, if_neg hrests]
  rfl

/-- A pass that comes to an outcome. -/
theorem completed_handle {o : Outcome} (h : (m.handle aliases w e now).result = .ok o) :
    ∃ p : Pass, p.event = e ∧ p.outcome = o ∧ o.time = now ∧
      m.Completed aliases w p (m.handle aliases w e now).machine (m.handle aliases w e now).world := by
  obtain ⟨inner, hacts, -, hends⟩ := m.acts_handle aliases w e now
  obtain ⟨rfl, hwhole⟩ := hends o h
  obtain ⟨j, hverdict, ho⟩ := verdict_of_handle h
  have hformed : o.judgement.Formed := by
    rw [ho]
    exact (formed_of_judge hverdict).1
  have htrail : (m.handle aliases w e o.time).world.trail = w.trail ++ (⟨m.rule, e, inner, o⟩ : Pass).trail := by
    rw [hacts.trail, h]
    simp [Pass.trail, ending]
  have hunmoved (hrests : o.judgement.state ≠ .firing) : m.Unmoved w ⟨m.rule, e, inner, o⟩
      (m.handle aliases w e o.time).machine (m.handle aliases w e o.time).world := by
    rw [handle_of_not_firing h hrests]
    exact ⟨rfl, rfl, rfl, rfl⟩
  refine ⟨⟨m.rule, e, inner, o⟩, rfl, rfl, rfl, rfl, hwhole, hformed, htrail, ?_⟩
  cases hstate : o.judgement.state with
  | firing =>
    obtain ⟨runs, s, retrigger, hperforms, hactions, hhistory, hcounts, hrecord, heq⟩ := handle_of_firing h hstate
    have hlast := m.retrigger.recordFired_lastFired o.time s.world.platform.solar
    rw [hrecord] at hlast
    rw [heq]
    exact ⟨⟨runs, s, hperforms, hactions, rfl, by rw [← hhistory]; rfl⟩, by rw [← hcounts]; rfl, hlast⟩
  | suppressed => exact hunmoved (by simp [hstate])
  | idle => exact hunmoved (by simp [hstate])
  | errored => exact hunmoved (by simp [hstate])
  | evaluating =>
    rw [ho] at hformed hstate
    cases hformed <;> cases hstate

theorem Completed.congr {w' : World} {p : Pass} {m' m'' : Machine}
    (h : m.Completed aliases w p m' w') (hlast : m''.retrigger.lastFired = m'.retrigger.lastFired) :
    m.Completed aliases w p m'' w' := by
  obtain ⟨hrule, hwhole, hformed, htrail, heffects⟩ := h
  have hunmoved (h : m.Unmoved w p m' w') : m.Unmoved w p m'' w' :=
    ⟨h.world, h.platform, h.engine, hlast.trans h.lastFired⟩
  refine ⟨hrule, hwhole, hformed, htrail, ?_⟩
  cases hstate : p.outcome.judgement.state with
  | firing =>
    simp only [hstate] at heffects
    exact ⟨heffects.effects, heffects.counts, hlast.trans heffects.lastFired⟩
  | evaluating => simp only [hstate] at heffects
  | suppressed | idle | errored =>
    simp only [hstate] at heffects
    exact hunmoved heffects

theorem Completed.fired {w' : World} {p : Pass} {m' : Machine} (h : m.Completed aliases w p m' w')
    (hfired : p.outcome.fired = true) : m.Fired aliases w p m' w' := by
  have hstate : p.outcome.judgement.state = .firing := by simpa [Outcome.fired] using hfired
  have heffects := h.effects
  simp only [hstate] at heffects
  exact heffects

theorem Completed.unmoved {w' : World} {p : Pass} {m' : Machine} (h : m.Completed aliases w p m' w')
    (hfired : p.outcome.fired = false) : m.Unmoved w p m' w' := by
  have heffects := h.effects
  cases hstate : p.outcome.judgement.state with
  | firing => simp [Outcome.fired, hstate] at hfired
  | evaluating => simp only [hstate] at heffects
  | suppressed | idle | errored =>
    simp only [hstate] at heffects
    exact heffects

theorem Completed.counted {w' : World} {p : Pass} {m' : Machine}
    (h : m.Completed aliases w p m' w') (hfired : p.outcome.fired = true) (hname : m.rule.name.isScalar = true)
    {name : Document} (hlooked : name.isScalar = true) : w'.engine.firedCount name =
      w.engine.firedCount name + if m.rule.name.agrees name then 1 else 0 := by
  rw [Engine.firedCount, (h.fired hfired).counts, Engine.count_countUp_eq hname hlooked]
  rfl

/-- So does a periodic event that comes to an outcome, whether the rule fires or plans the next one without. -/
theorem completed_handleTick {o : Outcome} (h : (m.handleTick aliases w now).result = .ok (some o)) :
    ∃ p : Pass, p.event = .tick now ∧ p.outcome = o ∧ o.time = now ∧
      m.Completed aliases w p (m.handleTick aliases w now).machine (m.handleTick aliases w now).world := by
  obtain ⟨-, -, hnone⟩ | ⟨pass, _, retrigger, -, rfl, hresult, htick, hsome, hplan⟩ := handleTick_eq_ok h
  · cases hnone
  · cases hsome
    obtain ⟨p, hevent, hp, htime, hcompleted⟩ := completed_handle hresult
    refine ⟨p, hevent, hp, htime, ?_⟩
    rw [htick]
    refine hcompleted.congr ?_
    split at hplan
    · rw [hplan]
    · have hkept := (m.handle aliases w (.tick now) now).machine.retrigger.plan_lastFired now w.platform.solar
      rwa [← Retrigger.consume, hplan] at hkept

end

end Machine
end Domotics
