import Domotics.Proofs.Run.Action

/-!
A pass of a rule over an event, seen from outside: what it leaves in the trail, and what it leaves of
the rule. A rule fires only when its cooldown is over, and then remembers the time.
-/

namespace Domotics

/-- A pass that ended with an outcome, and what happened between its beginning and its end. -/
structure Pass where
  rule : Rule
  event : Event
  inner : List Happening
  outcome : Outcome

namespace Happening

def endsPass : Happening → Bool
  | passed _ | broke .. => true
  | _ => false

/-- What is read off the ends of passes only is read off a pass at its end. -/
theorem filterMap_pass {α : Type} {f : Happening → Option α}
    (hf : ∀ x, x.endsPass = false → f x = none) {rule : Document} {e : Event}
    {inner : List Happening} (last : Happening) (h : ∀ x ∈ inner, x.isInner = true) :
    (.began rule e :: inner ++ [last]).filterMap f = (f last).toList := by
  have hinner : inner.filterMap f = [] := by
    refine List.filterMap_eq_nil_iff.mpr fun x hx => hf x ?_
    have := h x hx
    cases x <;> simp_all [isInner, isDeed, endsPass]
  rw [List.filterMap_append, List.filterMap_cons_none (hf _ rfl), hinner, List.nil_append]
  cases hlast : f last <;> simp [hlast]

end Happening

namespace Pass

def trail (p : Pass) : List Happening :=
  .began p.rule.name p.event :: p.inner ++ [.passed p.outcome]

/-- Nothing but the actions of the rule and what they publish happens in a pass: all actions in order
if the rule fires, and nothing otherwise. -/
structure Whole (p : Pass) : Prop where
  inner : ∀ x ∈ p.inner, x.isInner = true
  rule : p.outcome.rule = p.rule.name
  event : p.outcome.event = p.event
  effects : if p.outcome.fired then Happening.actedIn p.inner = p.rule.actions else p.inner = []

end Pass

namespace Machine

open World

theorem mayFire_of_judgeCooldown {m : Machine} {s : Situation} {absorbed : List Fault}
    {j : Judgement} (h : m.judgeCooldown s absorbed = .ok j) (hfiring : j.state = .firing) :
    m.retrigger.mayFire s.now = .ok true := by
  rw [judgeCooldown] at h
  cases hmay : m.retrigger.mayFire s.now with
  | error fault => simp [hmay, bind, Except.bind] at h
  | ok may =>
    cases may with
    | true => rfl
    | false =>
      cases hrest : m.retrigger.remaining s.now with
      | error fault => simp [hmay, hrest, bind, Except.bind] at h
      | ok rest =>
        simp only [hmay, hrest, bind, Except.bind, pure, Except.pure] at h
        cases h
        simp at hfiring

theorem mayFire_of_judgeSchedule {m : Machine} {s : Situation} {absorbed : List Fault}
    {j : Judgement} (h : m.judgeSchedule s absorbed = .ok j) (hfiring : j.state = .firing) :
    m.retrigger.mayFire s.now = .ok true := by
  rw [judgeSchedule] at h
  cases hclass : m.rule.schedule.classify s.now s.solar with
  | error fault => simp [hclass, bind, Except.bind] at h
  | ok c =>
    simp only [hclass, bind, Except.bind] at h
    cases c with
    | forbidden =>
      cases h
      simp at hfiring
    | neutral =>
      by_cases hdefault : m.rule.runsByDefault = true
      · rw [if_pos hdefault] at h
        exact mayFire_of_judgeCooldown h hfiring
      · rw [if_neg hdefault] at h
        cases h
        simp at hfiring
    | allowed => exact mayFire_of_judgeCooldown h hfiring

theorem mayFire_of_judge {m : Machine} {s : Situation} {j : Judgement} (h : m.judge s = .ok j)
    (hfiring : j.state = .firing) : m.retrigger.mayFire s.now = .ok true := by
  rw [judge] at h
  split at h
  · cases h
    simp at hfiring
  · exact mayFire_of_judgeSchedule h hfiring
  · split at h
    · cases h
      simp at hfiring
    · cases h

structure Passed (m m' : Machine) (now : Moment) (result : Result Outcome) : Prop where
  rule : m'.rule = m.rule
  cooldown : m'.retrigger.cooldown = m.retrigger.cooldown
  lastFired : m'.retrigger.lastFired = m.retrigger.lastFired ∨
    m.retrigger.mayFire now = .ok true ∧ m'.retrigger.lastFired = some now
  fired : ∀ o, result = .ok o → o.fired = true →
    m.retrigger.mayFire now = .ok true ∧ m'.retrigger.lastFired = some now

section

variable (m : Machine) (aliases : AliasRegistry) (w : World) (e : Event) (now : Moment)

theorem fire_machine : (m.fire aliases w e now).machine =
    { m with
      retrigger := (m.retrigger.recordFired now (m.fire aliases w e now).world.platform.solar).1 } := by
  unfold fire
  dsimp only
  split
  all_goals rename_i hr
  all_goals simp [hr]

theorem acts_fire : ∃ inner,
    Acts (Action.allKeepToBus m.rule.actions = true) w (m.fire aliases w e now).world inner ∧
      (∀ x ∈ inner, x.isInner = true) ∧ Happening.actedIn inner = m.rule.actions := by
  obtain ⟨inner, hacts, hinner, hacted⟩ := Action.acts_runEach
    ⟨{ rule := m.rule.name, event := e, now, aliases }, w⟩ m.rule.actions
  refine ⟨inner, ?_, hinner, hacted⟩
  unfold fire
  dsimp only
  split
  · exact hacts
  · simpa using hacts.trans (.recordFire _ _)

theorem acts_conclude (j : Judgement) : ∃ inner,
    Acts (Action.allKeepToBus m.rule.actions = true) w (m.conclude aliases w e now j).world inner ∧
      (∀ x ∈ inner, x.isInner = true) ∧
      ∀ o, (m.conclude aliases w e now j).result = .ok o →
        o.time = now ∧ (⟨m.rule, e, inner, o⟩ : Pass).Whole := by
  by_cases hfiring : j.state = .firing
  · obtain ⟨inner, hacts, hinner, hacted⟩ := acts_fire { m with phase := .firing } aliases w e now
    refine ⟨inner, by simpa [conclude, hfiring] using hacts, hinner, fun o ho => ?_⟩
    have ho : o = ⟨m.rule.name, now, e, j⟩ := by
      simp only [conclude, hfiring, if_true] at ho
      cases hr : ({ m with phase := .firing } : Machine).fire aliases w e now |>.result with
      | error fault => simp [hr, Except.map] at ho
      | ok a => simpa [hr, Except.map] using ho.symm
    subst ho
    exact ⟨rfl, hinner, rfl, rfl, by simpa [Outcome.fired, hfiring] using hacted⟩
  · refine ⟨[], by simpa [conclude, hfiring] using Acts.refl w, by simp, fun o ho => ?_⟩
    have ho : o = ⟨m.rule.name, now, e, j⟩ := by
      simpa [conclude, hfiring] using ho.symm
    subst ho
    exact ⟨rfl, by simp, rfl, rfl, by simp [Outcome.fired, hfiring]⟩

theorem passed_conclude {m : Machine} {s : Situation} {j : Judgement} (aliases : AliasRegistry)
    (w : World) (e : Event) (hjudge : m.judge s = .ok j) :
    Passed m (m.conclude aliases w e s.now j).machine s.now
      (m.conclude aliases w e s.now j).result := by
  by_cases hfiring : j.state = .firing
  · have hmay := mayFire_of_judge hjudge hfiring
    have hmachine := fire_machine { m with phase := .firing } aliases w e s.now
    refine ⟨?_, ?_, .inr ⟨hmay, ?_⟩, fun _ _ _ => ⟨hmay, ?_⟩⟩
    all_goals simp only [conclude, hfiring, if_true, hmachine]
    all_goals simp
  · refine ⟨?_, ?_, .inl ?_, fun o ho hfired => ?_⟩
    · simp [conclude, hfiring]
    · simp [conclude, hfiring]
    · simp [conclude, hfiring]
    · have ho : o = ⟨m.rule.name, s.now, e, j⟩ := by
        simpa [conclude, hfiring] using ho.symm
      subst ho
      simp [Outcome.fired, hfiring] at hfired

/-- The rule as it judges an event: it has noted the value that the event brings. -/
def noting (m : Machine) (e : Event) : Machine :=
  { m with cache := m.cache.record e, phase := .evaluating }

theorem attempt_of_ok {j : Judgement} (h : (m.noting e).judge
    ((m.noting e).situation (w.surroundings aliases) e (m.cache.valueBefore e) now) = .ok j) :
    m.attempt aliases w e now = (m.noting e).conclude aliases w e now j := by
  rw [attempt]
  rw [noting] at h
  simp only [h]
  rfl

theorem attempt_of_error {fault : Fault} (h : (m.noting e).judge
    ((m.noting e).situation (w.surroundings aliases) e (m.cache.valueBefore e) now) =
      .error fault) :
    m.attempt aliases w e now = ⟨{ m.noting e with phase := .idle }, w, .error fault⟩ := by
  rw [attempt]
  rw [noting] at h
  simp only [h]
  rfl

theorem acts_attempt : ∃ inner,
    Acts (Action.allKeepToBus m.rule.actions = true) w (m.attempt aliases w e now).world inner ∧
      (∀ x ∈ inner, x.isInner = true) ∧
      ∀ o, (m.attempt aliases w e now).result = .ok o →
        o.time = now ∧ (⟨m.rule, e, inner, o⟩ : Pass).Whole := by
  cases hjudge : (m.noting e).judge
      ((m.noting e).situation (w.surroundings aliases) e (m.cache.valueBefore e) now) with
  | ok j =>
    rw [attempt_of_ok m aliases w e now hjudge]
    exact acts_conclude (m.noting e) aliases w e now j
  | error fault =>
    rw [attempt_of_error m aliases w e now hjudge]
    exact ⟨[], .refl w, by simp, by simp⟩

theorem passed_attempt :
    Passed m (m.attempt aliases w e now).machine now (m.attempt aliases w e now).result := by
  cases hjudge : (m.noting e).judge
      ((m.noting e).situation (w.surroundings aliases) e (m.cache.valueBefore e) now) with
  | ok j =>
    rw [attempt_of_ok m aliases w e now hjudge]
    obtain ⟨hrule, hcooldown, hlast, hfired⟩ := passed_conclude aliases w e hjudge
    exact ⟨hrule, hcooldown, hlast, hfired⟩
  | error fault =>
    rw [attempt_of_error m aliases w e now hjudge]
    exact ⟨rfl, rfl, .inl rfl, by simp⟩

theorem passed_handle :
    Passed m (m.handle aliases w e now).machine now (m.handle aliases w e now).result :=
  passed_attempt m aliases (w.mark (.began m.rule.name e)) e now

theorem acts_handle : ∃ inner,
    Acts (Action.allKeepToBus m.rule.actions = true) w (m.handle aliases w e now).world
        (.began m.rule.name e :: inner ++ [m.ending e (m.handle aliases w e now).result]) ∧
      (∀ x ∈ inner, x.isInner = true) ∧
      ∀ o, (m.handle aliases w e now).result = .ok o →
        o.time = now ∧ (⟨m.rule, e, inner, o⟩ : Pass).Whole := by
  obtain ⟨inner, hacts, hinner, hwhole⟩ :=
    acts_attempt m aliases (w.mark (.began m.rule.name e)) e now
  refine ⟨inner, ?_, hinner, hwhole⟩
  have hbegan : Acts (Action.allKeepToBus m.rule.actions = true) w
      (w.mark (.began m.rule.name e)) [.began m.rule.name e] := .mark w _ rfl
  have hending : (m.ending e (m.handle aliases w e now).result).published? = none := by
    cases (m.handle aliases w e now).result <;> rfl
  exact (hbegan.trans hacts).trans (.mark _ _ hending)

structure Planned (m m' : Machine) : Prop where
  rule : m'.rule = m.rule
  cooldown : m'.retrigger.cooldown = m.retrigger.cooldown
  lastFired : m'.retrigger.lastFired = m.retrigger.lastFired
  phase : m'.phase = m.phase

/-- The ways in which a periodic event can go when a pass over it would be `pass`: none is due, one
breaks before it begins, or there is the pass, after which planning the next event may fail. -/
inductive Ticked (m : Machine) (w : World) (now : Moment) (pass : PassResult Outcome) :
    PassResult (Option Outcome) → Prop where
  | notDue : Ticked m w now pass ⟨m, w, .ok none⟩
  | unknown (fault : Fault) : Ticked m w now pass
      ⟨m, w.mark (.broke m.rule.name (.tick now) fault), .error fault⟩
  | passed {m' : Machine} {result : Result Outcome} (hresult : pass.result = result)
      (h : Planned pass.machine m') : Ticked m w now pass ⟨m', pass.world, result.map some⟩
  | unplanned {m' : Machine} (fault : Fault) (h : Planned pass.machine m') : Ticked m w now pass
      ⟨m', pass.world.mark (.broke m.rule.name (.tick now) fault), .error fault⟩

theorem ticked_handleTick :
    Ticked m w now (m.handle aliases w (.tick now) now) (m.handleTick aliases w now) := by
  rw [handleTick]
  split
  · exact .unknown _
  · exact .notDue
  · generalize m.handle aliases w (.tick now) now = pass
    dsimp only
    cases hresult : pass.result with
    | error fault => exact .passed hresult ⟨rfl, rfl, rfl, rfl⟩
    | ok o =>
      dsimp only
      split_ifs with hfired
      · exact .passed hresult ⟨rfl, rfl, rfl, rfl⟩
      · have hcooldown := pass.machine.retrigger.plan_cooldown now w.platform.solar
        have hlast := pass.machine.retrigger.plan_lastFired now w.platform.solar
        rw [← Retrigger.consume] at hcooldown hlast
        rcases hconsumed : pass.machine.retrigger.consume now w.platform.solar
          with ⟨retrigger, planned⟩
        rw [hconsumed] at hcooldown hlast
        have hplanned : Planned pass.machine { pass.machine with retrigger } :=
          ⟨rfl, hcooldown, hlast, rfl⟩
        cases planned with
        | error fault => exact .unplanned fault hplanned
        | ok _ => exact .passed hresult hplanned

theorem acts_handleTick : ∃ added, Acts (Action.allKeepToBus m.rule.actions = true) w
    (m.handleTick aliases w now).world added := by
  obtain ⟨inner, hacts, _⟩ := acts_handle m aliases w (.tick now) now
  have hticked := ticked_handleTick m aliases w now
  generalize m.handleTick aliases w now = tick at hticked ⊢
  cases hticked with
  | notDue => exact ⟨[], .refl w⟩
  | unknown fault => exact ⟨_, .mark w _ rfl⟩
  | passed => exact ⟨_, hacts⟩
  | unplanned fault => exact ⟨_, hacts.trans (.mark _ _ rfl)⟩

end

end Machine
end Domotics
