import Domotics.Proofs.Engine.Judgement
import Domotics.Proofs.Expression.Reordering
import Domotics.Proofs.Run.Restriction
import Domotics.Proofs.Transition.Update

/-!
The order of the clauses of a rule. A rule that goes on after faults of targets comes to the same end, whatever the
order of its suppressors, of its triggers and of what stands in their conjunctions and disjunctions. Only the faults
that it absorbs on the way may be others.
-/

namespace Domotics

open Result

def Judgement.ending (j : Judgement) : RuleState × Reason := (j.state, j.reason)

namespace Machine

variable {m : Machine} {s : Situation}

def weighTriggers (m : Machine) (s : Situation) (triggered : Bool) : Result (RuleState × Reason) := do
  if ← m.retrigger.mayFire s.now then
    return if s.event.kind = .periodic ∨ triggered then (.firing, .fired) else (.idle, .noTrigger)
  else return (.suppressed, .cooldown (← m.retrigger.remaining s.now))

/-- How a rule ends a pass, given whether a suppressor holds and whether a trigger does. -/
def weigh (m : Machine) (s : Situation) (suppressed triggered : Bool) : Result (RuleState × Reason) := do
  if suppressed then return (.suppressed, .suppressClause)
  else match ← m.rule.schedule.classify s.now s.solar with
    | .forbidden => return (.suppressed, .forbidden)
    | window =>
      if m.rule.runsIn window then m.weighTriggers s triggered else return (.suppressed, .outsideWindows)

def Decided (x : RuleState × Reason) : Prop := x.1 = .firing ∨ x.1 = .suppressed ∨ x.1 = .idle

theorem decided_of_weighTriggers {triggered : Bool} {x : RuleState × Reason}
    (h : m.weighTriggers s triggered = .ok x) : Decided x := by
  obtain ⟨may, -, h⟩ := bind_eq_ok.mp h
  cases may with
  | true =>
    simp only [if_true, pure_eq_ok] at h
    split_ifs at h
    · cases h
      exact .inl rfl
    · cases h
      exact .inr (.inr rfl)
  | false =>
    obtain ⟨remaining, -, h⟩ := bind_eq_ok.mp h
    cases h
    exact .inr (.inl rfl)

theorem decided_of_weigh {suppressed triggered : Bool} {x : RuleState × Reason}
    (h : m.weigh s suppressed triggered = .ok x) : Decided x := by
  have hsuppressed (reason : Reason) : Decided (.suppressed, reason) := .inr (.inl rfl)
  rw [weigh] at h
  cases suppressed with
  | true =>
    cases h
    exact hsuppressed _
  | false =>
    obtain ⟨window, -, h⟩ := bind_eq_ok.mp h
    cases window with
    | forbidden =>
      cases h
      exact hsuppressed _
    | neutral =>
      dsimp only at h
      split_ifs at h
      · exact decided_of_weighTriggers h
      · cases h
        exact hsuppressed _
    | allowed => exact decided_of_weighTriggers h

section

variable {suppressed triggered : Bool} (htriggers : (Expression.evaluateAny s m.rule.triggers).result = .ok triggered)

include htriggers

theorem judgeTriggers_ending (absorbed : List Fault) : (m.judgeTriggers s absorbed).map Judgement.ending =
    .ok (if s.event.kind = .periodic ∨ triggered then (.firing, .fired) else (.idle, .noTrigger)) := by
  rw [judgeTriggers]
  by_cases hperiodic : s.event.kind = .periodic
  · simp [hperiodic, Except.map, Judgement.ending]
  · cases triggered <;> simp [hperiodic, htriggers, Except.map, Judgement.ending]

theorem judgeCooldown_ending (absorbed : List Fault) :
    (m.judgeCooldown s absorbed).map Judgement.ending = m.weighTriggers s triggered := by
  rw [judgeCooldown, weighTriggers]
  cases m.retrigger.mayFire s.now with
  | error fault => rfl
  | ok may =>
    cases may with
    | true => exact judgeTriggers_ending htriggers absorbed
    | false => cases m.retrigger.remaining s.now <;> rfl

/-- A judgement ends a pass as the truth of the suppressors and that of the triggers say. -/
theorem judge_ending (hsuppressors : (Expression.evaluateAny s m.rule.suppressors).result = .ok suppressed) :
    (m.judge s).map Judgement.ending = m.weigh s suppressed triggered := by
  rw [judge, weigh]
  simp only [hsuppressors]
  cases suppressed with
  | true => rfl
  | false =>
    rw [judgeSchedule]
    cases m.rule.schedule.classify s.now s.solar with
    | error fault => rfl
    | ok window =>
      cases window with
      | forbidden => rfl
      | allowed => exact judgeCooldown_ending htriggers _
      | neutral =>
        cases hdefault : m.rule.runsByDefault with
        | true =>
          simp only [Rule.runsIn, hdefault, ok_bind, if_true, Bool.false_eq_true, if_false]
          exact judgeCooldown_ending htriggers _
        | false =>
          simp only [Rule.runsIn, hdefault, ok_bind, Bool.false_eq_true, if_false]
          rfl

end

variable {aliases : AliasRegistry} {w : World} {e : Event} {now : Moment}

/-- How a pass ends: as the judgement says, unless the next periodic fire cannot be planned. -/
theorem handle_ending : (m.handle aliases w e now).result.map (·.judgement.ending) = do
    let x ← (m.verdict aliases w e now).map Judgement.ending
    if x.1 = .firing then
      (m.retrigger.recordFired now
        (m.afterActions aliases (w.mark (.began m.rule.name e)) e now).platform.solar).2
    return x := by
  have hhandled := m.handled_handle aliases w e now
  generalize m.handle aliases w e now = pass at hhandled ⊢
  cases hhandled with
  | broke hverdict =>
    rw [hverdict]
    rfl
  | rested hverdict hrests =>
    rw [hverdict]
    simp [Except.map, Judgement.ending, hrests]
  | fired record hverdict hfires hafter hrecord =>
    subst hafter
    rw [hverdict]
    simp [Except.map, Judgement.ending, hfires, hrecord]
  | unplanned hverdict hfires hafter hrecord =>
    subst hafter
    rw [hverdict]
    simp [Except.map, Judgement.ending, hfires, hrecord, bind, Except.bind]

open Expression

/-- The order of clauses has no part in how a pass ends. Let a rule go on after faults of targets, and let another be
the same but for the order of its suppressors, of its triggers and of what stands in their conjunctions and
disjunctions. Unless a leaf breaks with something that cannot be absorbed, a pass of the one over an event ends in the
same state and for the same reason as a pass of the other: the rules fire, are suppressed or have no trigger. What
breaks a pass apart from the leaves breaks the other one too. -/
theorem ends_alike_of_reordered (r : Rule) (suppressors triggers : List Expression)
    (hsuppressors : Reordered r.suppressors suppressors) (htriggers : Reordered r.triggers triggers)
    (htolerant : r.isTolerant = true) (m : Machine) (aliases : AliasRegistry) (w : World) (e : Event) (now : Moment)
    (hleaves : ∀ leaf ∈ leavesOf r.suppressors ++ leavesOf r.triggers, ∀ f,
      (evaluate ((m.under r).outlook aliases w e now) leaf).result = .error f → f.isDomain = true) :
    let pass := (m.under r).handle aliases w e now
    let pass' := (m.under { r with suppressors, triggers }).handle aliases w e now
    (∀ o, pass.result = .ok o → ∃ o', pass'.result = .ok o' ∧ o'.judgement.state = o.judgement.state ∧
      o'.judgement.reason = o.judgement.reason ∧ o.judgement.state ∈ [.firing, .suppressed, .idle]) ∧
    ∀ f, pass.result = .error f → pass'.result = .error f := by
  intro pass pass'
  let r' : Rule := { r with suppressors, triggers }
  let s := (m.under r).outlook aliases w e now
  have hanswers {es : List Expression} (hsome : ∀ leaf ∈ leavesOf es,
      leaf ∈ leavesOf r.suppressors ++ leavesOf r.triggers) : LeavesAnswer s es :=
    leavesAnswer_of_tolerant htolerant fun leaf hleaf => hleaves leaf (hsome leaf hleaf)
  obtain ⟨hsuppressed, hsuppressed'⟩ :=
    hsuppressors.evaluateAny_eq (hanswers fun _ hleaf => List.mem_append_left _ hleaf)
  obtain ⟨htriggered, htriggered'⟩ :=
    htriggers.evaluateAny_eq (hanswers fun _ hleaf => List.mem_append_right _ hleaf)
  -- Both rules judge in one situation, and differ in nothing else that they weigh.
  have hverdict : ((m.under r).verdict aliases w e now).map Judgement.ending =
      ((m.under r).noting e).weigh s (truthAny s r.suppressors) (truthAny s r.triggers) :=
    judge_ending (m := (m.under r).noting e) htriggered hsuppressed
  have hverdict' : ((m.under r').verdict aliases w e now).map Judgement.ending =
      ((m.under r).noting e).weigh s (truthAny s r.suppressors) (truthAny s r.triggers) :=
    judge_ending (m := (m.under r').noting e) htriggered' hsuppressed'
  have hends : pass'.result.map (·.judgement.ending) = pass.result.map (·.judgement.ending) := by
    rw [handle_ending, handle_ending, hverdict', hverdict]
    rfl
  refine ⟨fun o ho => ?_, fun f hf => ?_⟩
  · obtain ⟨j, hj, rfl⟩ := verdict_of_handle ho
    have hdecided : Decided j.ending := by
      rw [hj] at hverdict
      exact decided_of_weigh hverdict.symm
    rw [ho] at hends
    obtain ⟨o', ho', hends⟩ := map_eq_ok.mp hends
    obtain ⟨hstate, hreason⟩ := Prod.ext_iff.mp hends
    exact ⟨o', ho', hstate, hreason, by simpa [Decided, Judgement.ending] using hdecided⟩
  · rw [hf] at hends
    exact map_eq_error.mp hends

def doorOpen : Expression :=
  .device { target := .text "door", kind := .is, value := .openClosed .opened, type := some .openClosed }

def lampOff : Expression := .device { lampOn .is with value := .onOff .off }

/-- A rule that waits for the lamp to go on while the door is not open, unless the door is open and the lamp off. -/
def doorkeeper : Rule where
  name := .text "doorkeeper"
  triggers := [.all [.negation doorOpen, .device (lampOn .goes)]]
  suppressors := [.all [doorOpen, lampOff]]
  continueOnErrors := .bool true

/-- In the world with the lamp alone the door is not known. The rule fires in either order, with two faults absorbed in
one of them and one in the other. -/
theorem ends_alike_of_reordered_doorkeeper :
    let triggers : List Expression := [.all [.device (lampOn .goes), .negation doorOpen]]
    let suppressors : List Expression := [.all [lampOff, doorOpen]]
    let now : Moment := ⟨0, none⟩
    let e : Event := { ref := some ⟨.item, "lamp"⟩, kind := .update, new := .onOff .on, time := now }
    let pass := (watcher.under doorkeeper).handle {} lampWorld e now
    let pass' := (watcher.under { doorkeeper with suppressors, triggers }).handle {} lampWorld e now
    Reordered doorkeeper.suppressors suppressors ∧ Reordered doorkeeper.triggers triggers ∧
    doorkeeper.isTolerant = true ∧
    ∃ o o', pass.result = .ok o ∧ pass'.result = .ok o' ∧ o.judgement.state = .firing ∧
      o'.judgement.state = .firing ∧ o.judgement.absorbed.length = 2 ∧ o'.judgement.absorbed.length = 1 := by
  intro triggers suppressors now e pass pass'
  have hsuppressors : Reordered doorkeeper.suppressors suppressors := .all (reordered_of_perm (.swap _ _ _))
  have htriggers : Reordered doorkeeper.triggers triggers := .all (reordered_of_perm (.swap _ _ _))
  have hleaves : ∀ leaf ∈ leavesOf doorkeeper.suppressors ++ leavesOf doorkeeper.triggers, ∀ f,
      (evaluate ((watcher.under doorkeeper).outlook {} lampWorld e now) leaf).result = .error f →
        f.isDomain = true := by
    intro leaf hleaf f hf
    have hcases : leaf = doorOpen ∨ leaf = lampOff ∨ leaf = doorOpen ∨ leaf = .device (lampOn .goes) := by
      simpa [doorkeeper, leavesOf, leaves, doorOpen, lampOff] using hleaf
    rcases hcases with rfl | rfl | rfl | rfl <;> cases hf
  have hfires : pass.result.toOption.map (fun o => (o.judgement.state, o.judgement.absorbed.length)) =
      some (.firing, 2) := by decide +kernel
  have habsorbs : pass'.result.toOption.map (·.judgement.absorbed.length) = some 1 := by decide +kernel
  obtain ⟨o, ho, hsays⟩ := Option.map_eq_some_iff.mp hfires
  obtain ⟨hstate, hlength⟩ := Prod.ext_iff.mp hsays
  obtain ⟨o', ho', hstate', -, -⟩ := (ends_alike_of_reordered doorkeeper suppressors triggers hsuppressors htriggers rfl
    watcher {} lampWorld e now hleaves).1 o (ok_of_toOption ho)
  have hlength' : o'.judgement.absorbed.length = 1 := by
    have hresult : pass'.result = .ok o' := ho'
    simpa [hresult, Except.toOption] using habsorbs
  exact ⟨hsuppressors, htriggers, rfl, o, o', ok_of_toOption ho, ho', hstate, hstate'.trans hstate, hlength, hlength'⟩

end Machine
end Domotics
