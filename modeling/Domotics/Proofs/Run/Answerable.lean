import Domotics.Proofs.Engine.Loadable
import Domotics.Proofs.Expression.Defined
import Domotics.Proofs.Run.Punctual

/-!
Rules that always answer. When the targets of all rules can be looked up and no time leaves the calendar, a pass of a
rule never breaks: a fault of a target shows in the outcome of the rule, and the rules after it have their turn. So a
call of the engine raises nothing, and reports one outcome of each rule for each event that it hands over.
-/

namespace Domotics

open Result

/-! ### Judgements -/

def Situation.strict (s : Situation) : Situation := { s with tolerant := false }

/-- A fault shows in a judgement: a rule that is not tolerant ends with it, a tolerant one has absorbed it. -/
def Judgement.Shows (j : Judgement) (tolerant : Bool) (f : Fault) : Prop :=
  if tolerant then f ∈ j.absorbed else j.state = .errored ∧ j.reason = .fault f

theorem Judgement.shows_of_absorbed {j : Judgement} {f : Fault} {s : Situation} (hs : s.tolerant = true)
    (h : f ∈ j.absorbed) : j.Shows s.tolerant f := by
  rwa [Shows, if_pos hs]

/-- A verdict beside what a strict evaluation comes to: it is the same, or the fault of a target is absorbed. -/
inductive Verdict.Told (tolerant : Bool) (strict : Result Bool) : Verdict → Prop where
  | value (b : Bool) (h : strict = .ok b) : Told tolerant strict { result := .ok b }
  | ended (f : Fault) (hstrict : tolerant = false) (hf : f.isDomain = true) (h : strict = .error f) :
      Told tolerant strict { result := .error f }
  | absorbed (f : Fault) (b : Bool) (later : List Fault) (htolerant : tolerant = true) (h : strict = .error f) :
      Told tolerant strict { result := .ok b, absorbed := f :: later }

theorem Expression.told_evaluateAny {s : Situation} {es : List Expression}
    (h : ∀ b, TargetFaultsOnly (evaluateAny { s with tolerant := b } es).result) :
    Verdict.Told s.tolerant (evaluateAny s.strict es).result (evaluateAny s es) := by
  have htolerates : Verdict.Tolerates (evaluateAny s.strict es) (evaluateAny { s with tolerant := true } es) :=
    tolerates_evaluateAny s es
  have hstrict : TargetFaultsOnly (evaluateAny s.strict es).result := h false
  have hends := h true
  cases htolerant : s.tolerant with
  | false =>
    have hsame : s = s.strict := by rw [Situation.strict, ← htolerant]
    rw [← hsame] at htolerates hstrict ⊢
    generalize evaluateAny s es = v, evaluateAny { s with tolerant := true } es = u at htolerates hstrict ⊢
    cases htolerates with
    | agreed b => exact .value b rfl
    | absorbed hf _ => exact .ended _ rfl (Fault.isDomain_of_isAbsorbable hf) rfl
    | broke _ => exact .ended _ rfl (Fault.isDomain_of_isAbsorbable (hstrict.absorbable _ rfl)) rfl
  | true =>
    have hsame : s = { s with tolerant := true } := by rw [← htolerant]
    rw [← hsame] at htolerates hends
    generalize evaluateAny s.strict es = strict, evaluateAny s es = v at htolerates hstrict hends ⊢
    cases htolerates with
    | agreed b => exact .value b rfl
    | @absorbed f result later _ hresult =>
      cases result with
      | ok b => exact .absorbed f b later rfl rfl
      | error g =>
        have hg := Fault.isDomain_of_isAbsorbable (hends.absorbable g rfl)
        simp [hresult.foreign g rfl] at hg
    | @broke f hf => simp [Fault.isDomain_of_isAbsorbable (hstrict.absorbable f rfl)] at hf

namespace Machine

variable {m : Machine} {s : Situation} {absorbed : List Fault} {j : Judgement}

def strictSuppressors (m : Machine) (s : Situation) : Result Bool :=
  (Expression.evaluateAny s.strict m.rule.suppressors).result

def strictTriggers (m : Machine) (s : Situation) : Result Bool :=
  (Expression.evaluateAny s.strict m.rule.triggers).result

/-- A judgement hides no fault. One that keeps the suppressors from being evaluated shows in it, and so does one that
keeps the triggers from it, unless the rule is suppressed before it comes to them; and no other fault does. -/
structure Reveals (m : Machine) (s : Situation) (j : Judgement) : Prop where
  suppressors : ∀ f, m.strictSuppressors s = .error f → j.Shows s.tolerant f
  triggers : s.event.kind ≠ .periodic → ∀ b f, m.strictSuppressors s = .ok b → m.strictTriggers s = .error f →
    j.state = .suppressed ∨ j.Shows s.tolerant f
  errored : ∀ f, j.error? = some f →
    s.tolerant = false ∧ (m.strictSuppressors s = .error f ∨ m.strictTriggers s = .error f)

structure RevealsLater (m : Machine) (s : Situation) (absorbed : List Fault) (j : Judgement) : Prop where
  keeps : ∀ f ∈ absorbed, f ∈ j.absorbed
  triggers : s.event.kind ≠ .periodic → ∀ f, m.strictTriggers s = .error f →
    j.state = .suppressed ∨ j.Shows s.tolerant f
  errored : ∀ f, j.error? = some f → s.tolerant = false ∧ m.strictTriggers s = .error f

/-- Nothing but a fault of a target stands between a rule and its judgement. -/
structure CanJudge (m : Machine) (s : Situation) : Prop where
  suppressors : Verdict.Told s.tolerant (m.strictSuppressors s) (Expression.evaluateAny s m.rule.suppressors)
  triggers : Verdict.Told s.tolerant (m.strictTriggers s) (Expression.evaluateAny s m.rule.triggers)
  schedule : Succeeds (m.rule.schedule.classify s.now s.solar)
  mayFire : Succeeds (m.retrigger.mayFire s.now)
  remaining : Succeeds (m.retrigger.remaining s.now)

theorem revealsLater_suppressed (reason : Reason) (hreason : ∀ f, reason ≠ .fault f) :
    RevealsLater m s absorbed ⟨.suppressed, reason, absorbed⟩ where
  keeps _ hf := hf
  triggers _ _ _ := .inl rfl
  errored f hf := by
    cases reason with
    | fault g => exact absurd rfl (hreason g)
    | _ => cases hf

theorem CanJudge.judgeTriggers (h : m.CanJudge s) (absorbed : List Fault) :
    ∃ j, m.judgeTriggers s absorbed = .ok j ∧ m.RevealsLater s absorbed j := by
  rw [Machine.judgeTriggers]
  split_ifs with hperiodic
  · exact ⟨_, rfl, fun _ hf => hf, fun hkind => absurd hperiodic hkind, fun f hf => by cases hf⟩
  · have htold := h.triggers
    generalize Expression.evaluateAny s m.rule.triggers = v at htold ⊢
    cases htold with
    | value b hb =>
      have hnone (f : Fault) : m.strictTriggers s ≠ .error f := by simp [hb]
      cases b <;>
        exact ⟨_, rfl, fun f hf => by simpa using hf, fun _ f hf => absurd hf (hnone f), fun f hf => by cases hf⟩
    | ended f hstrict hf heq =>
      refine ⟨⟨.errored, .fault f, absorbed ++ []⟩, by simp [hf], fun f hf => by simpa using hf, fun _ g hg => ?_,
        fun g hg => ?_⟩
      · cases heq.symm.trans hg
        exact .inr (by simp [Judgement.Shows, hstrict])
      · cases hg
        exact ⟨hstrict, heq⟩
    | absorbed f b later htolerant heq =>
      have hshows (j : Judgement) (hj : j.absorbed = absorbed ++ f :: later) (g : Fault)
          (hg : m.strictTriggers s = .error g) : j.state = .suppressed ∨ j.Shows s.tolerant g := by
        cases heq.symm.trans hg
        exact .inr (Judgement.shows_of_absorbed htolerant (by simp [hj]))
      cases b <;>
        exact ⟨_, rfl, fun g hg => List.mem_append_left _ hg, fun _ => hshows _ rfl, fun g hg => by cases hg⟩

theorem CanJudge.judgeCooldown (h : m.CanJudge s) (absorbed : List Fault) :
    ∃ j, m.judgeCooldown s absorbed = .ok j ∧ m.RevealsLater s absorbed j := by
  obtain ⟨may, hmay⟩ := h.mayFire
  rw [Machine.judgeCooldown, hmay, ok_bind]
  cases may with
  | true => exact h.judgeTriggers absorbed
  | false =>
    obtain ⟨rest, hrest⟩ := h.remaining
    exact ⟨_, by simp [hrest], revealsLater_suppressed (.cooldown rest) (by simp)⟩

theorem CanJudge.judgeSchedule (h : m.CanJudge s) (absorbed : List Fault) :
    ∃ j, m.judgeSchedule s absorbed = .ok j ∧ m.RevealsLater s absorbed j := by
  obtain ⟨window, hwindow⟩ := h.schedule
  rw [Machine.judgeSchedule, hwindow, ok_bind]
  cases window with
  | forbidden => exact ⟨_, rfl, revealsLater_suppressed .forbidden (by simp)⟩
  | neutral =>
    dsimp only
    split_ifs
    · exact h.judgeCooldown absorbed
    · exact ⟨_, rfl, revealsLater_suppressed .outsideWindows (by simp)⟩
  | allowed => exact h.judgeCooldown absorbed

/-- Such a rule comes to a judgement, which hides no fault. -/
theorem CanJudge.judge (h : m.CanJudge s) : ∃ j, m.judge s = .ok j ∧ m.Reveals s j := by
  have htold := h.suppressors
  rw [Machine.judge]
  generalize Expression.evaluateAny s m.rule.suppressors = v at htold ⊢
  cases htold with
  | value b hb =>
    cases b with
    | true => exact ⟨_, rfl, by simp [hb], fun _ _ _ _ _ => .inl rfl, fun f hf => by cases hf⟩
    | false =>
      obtain ⟨j, hj, hlater⟩ := h.judgeSchedule []
      exact ⟨j, hj, by simp [hb], fun hkind _ f _ hf => hlater.triggers hkind f hf,
        fun f hf => (hlater.errored f hf).imp_right .inr⟩
  | ended f hstrict hf heq =>
    refine ⟨⟨.errored, .fault f, []⟩, by simp [hf], fun g hg => ?_, by simp [heq], fun g hg => ?_⟩
    · cases heq.symm.trans hg
      simp [Judgement.Shows, hstrict]
    · cases hg
      exact ⟨hstrict, .inl heq⟩
  | absorbed f b later htolerant heq =>
    have hshows (j : Judgement) (hj : f ∈ j.absorbed) (g : Fault) (hg : m.strictSuppressors s = .error g) :
        j.Shows s.tolerant g := by
      cases heq.symm.trans hg
      exact Judgement.shows_of_absorbed htolerant hj
    cases b with
    | true => exact ⟨_, rfl, hshows _ (List.mem_cons_self ..), by simp [heq], fun g hg => by cases hg⟩
    | false =>
      obtain ⟨j, hj, hlater⟩ := h.judgeSchedule (f :: later)
      exact ⟨j, hj, hshows j (hlater.keeps f (List.mem_cons_self ..)), by simp [heq],
        fun g hg => (hlater.errored g hg).imp_right .inr⟩

end Machine

/-! ### Rules, timers and worlds -/

def Duration.calendar : Duration := ⟨Day.count * Duration.perDay⟩

def Rule.predicates (r : Rule) : List Predicate :=
  Expression.predicatesOf r.suppressors ++ Expression.predicatesOf r.triggers

def Rule.bounds (r : Rule) : List (Bound × Bool) :=
  r.schedule.bounds ++ (Expression.boundsOf r.suppressors ++ Expression.boundsOf r.triggers)

def RuleSet.bounds (rs : RuleSet) : List (Bound × Bool) := rs.rules.flatMap (·.bounds)

/-- Rules without periodic events, all of whose targets are texts and whose aliases can be looked up. What is left of
a cooldown can be told even if the clock is moved through the whole calendar. -/
structure RuleSet.Answerable (rs : RuleSet) : Prop where
  periodic : ∀ r ∈ rs.rules, r.periodic = []
  targets : ∀ r ∈ rs.rules, ∀ p ∈ r.predicates, ∃ name, p.target = .text name
  aliases : ∀ b ∈ rs.bindings, b.2.id.isScalar = true
  cooldown : ∀ r ∈ rs.rules, (r.cooldown.plus .calendar).Representable

structure Platform.Suits (rs : RuleSet) (offset : Option Int) (p : Platform) : Prop where
  offset : p.now.offset = offset
  admits : p.now.Admits p.solar rs.bounds

namespace Retrigger

/-- A timer without periodic events, which has fired, if at all, at a time of the calendar. -/
structure Plain (offset : Option Int) (r : Retrigger) : Prop where
  specs : r.specs = []
  nextTick : r.nextTick = none
  lastFired : ∀ t ∈ r.lastFired, t.offset = offset ∧ t.InCalendar

variable {r : Retrigger} {offset : Option Int} {now : Moment}

theorem since_eq_ok {t u : Moment} (h : t.offset = u.offset) : t.since u = .ok ⟨t.ticks - u.ticks⟩ := by
  have hcomparable : t.Comparable u := congrArg Option.isSome h
  have hticks : t.instant - u.instant = t.ticks - u.ticks := by
    rw [Moment.instant, Moment.instant, h]
    omega
  simp [Moment.since, Moment.since?, hcomparable, hticks]

theorem Plain.succeeds_mayFire (h : r.Plain offset) (hnow : now.offset = offset) : Succeeds (r.mayFire now) := by
  rw [mayFire]
  cases hlast : r.lastFired with
  | none => exact succeeds_ok true
  | some last =>
    dsimp only
    rw [since_eq_ok (hnow.trans (h.lastFired last hlast).1.symm)]
    exact succeeds_ok _

theorem Plain.succeeds_remaining (h : r.Plain offset) (hnow : now.offset = offset) (hcalendar : now.InCalendar)
    (hnonneg : .zero ≤ r.cooldown) (hcooldown : (r.cooldown.plus .calendar).Representable) :
    Succeeds (r.remaining now) := by
  rw [remaining]
  cases hlast : r.lastFired with
  | none => exact succeeds_ok _
  | some last =>
    obtain ⟨hoffset, hinside⟩ := h.lastFired last hlast
    have hrest : (r.cooldown.minus ⟨now.ticks - last.ticks⟩).Representable := by
      simp only [Moment.InCalendar, Duration.le_def, Duration.zero, Duration.plus_micros, Duration.minus_micros,
        Duration.calendar, Duration.Representable, Duration.wholeDays, Duration.maxDays, Day.count, Duration.perDay,
        Duration.perSecond] at *
      omega
    dsimp only
    rw [since_eq_ok (hnow.trans hoffset.symm), ok_bind, Duration.check, if_pos hrest]
    exact succeeds_ok _

theorem Plain.recordFired (h : r.Plain offset) (hnow : now.offset = offset) (hcalendar : now.InCalendar)
    (solar : SolarCalendar) : ∃ r', r.recordFired now solar = (r', .ok ()) ∧ r'.Plain offset := by
  have hlast : ∀ t ∈ some now, t.offset = offset ∧ t.InCalendar := by
    rintro t ⟨⟩
    exact ⟨hnow, hcalendar⟩
  rw [Retrigger.recordFired]
  dsimp only
  split_ifs
  · have hspecs : ({ r with lastFired := some now } : Retrigger).specs = [] := h.specs
    rw [plan_of_specs_eq_nil hspecs]
    exact ⟨_, rfl, h.specs, rfl, hlast⟩
  · exact ⟨_, rfl, h.specs, h.nextTick, hlast⟩

end Retrigger

namespace Machine

structure Answerable (rs : RuleSet) (offset : Option Int) (m : Machine) : Prop where
  rule : m.rule ∈ rs.rules
  cooldown : m.retrigger.cooldown = m.rule.cooldown
  nonneg : .zero ≤ m.rule.cooldown
  timer : m.retrigger.Plain offset

def facing (m : Machine) (aliases : AliasRegistry) (w : World) (e : Event) (now : Moment) : Situation :=
  (m.noting e).situation (w.surroundings aliases) e (m.cache.valueBefore e) now

variable {rs : RuleSet} {offset : Option Int} {m : Machine} {aliases : AliasRegistry} {w : World}

theorem Answerable.canJudge (hrs : rs.Answerable) (hm : m.Answerable rs offset) (haliases : aliases.Searchable)
    (hw : w.platform.Suits rs offset) (e : Event) :
    (m.noting e).CanJudge (m.facing aliases w e w.platform.now) := by
  have htargets := hrs.targets m.rule hm.rule
  rw [Rule.predicates, List.forall_mem_append] at htargets
  have hbounds : w.platform.now.Admits w.platform.solar m.rule.bounds :=
    hw.admits.mono fun x hx => List.mem_flatMap.mpr ⟨m.rule, hm.rule, hx⟩
  have hschedule : w.platform.now.Admits w.platform.solar m.rule.schedule.bounds :=
    hbounds.mono fun x hx => List.mem_append_left _ hx
  have hsuppressors : w.platform.now.Admits w.platform.solar (Expression.boundsOf m.rule.suppressors) :=
    hbounds.mono fun x hx => List.mem_append_right _ (List.mem_append_left _ hx)
  have htriggers : w.platform.now.Admits w.platform.solar (Expression.boundsOf m.rule.triggers) :=
    hbounds.mono fun x hx => List.mem_append_right _ (List.mem_append_right _ hx)
  exact {
    suppressors := Expression.told_evaluateAny fun _ =>
      Expression.targetFaultsOnly_evaluateAny haliases m.rule.suppressors htargets.1 hsuppressors
    triggers := Expression.told_evaluateAny fun _ =>
      Expression.targetFaultsOnly_evaluateAny haliases m.rule.triggers htargets.2 htriggers
    schedule := Schedule.succeeds_classify hschedule
    mayFire := hm.timer.succeeds_mayFire hw.offset
    remaining := hm.timer.succeeds_remaining hw.offset hw.admits.inCalendar (hm.cooldown ▸ hm.nonneg)
      (hm.cooldown ▸ hrs.cooldown m.rule hm.rule) }

/-- A pass of such a rule ends with its judgement, and leaves the rule such a one. -/
theorem Answerable.handle (hrs : rs.Answerable) (hm : m.Answerable rs offset) (haliases : aliases.Searchable)
    (hw : w.platform.Suits rs offset) (e : Event) :
    (m.handle aliases w e w.platform.now).machine.Answerable rs offset ∧
      ∃ j, (m.handle aliases w e w.platform.now).result = .ok ⟨m.rule.name, w.platform.now, e, j⟩ ∧
        m.verdict aliases w e w.platform.now = .ok j ∧
        (m.noting e).Reveals (m.facing aliases w e w.platform.now) j := by
  obtain ⟨j, hj, hreveals⟩ := (hm.canJudge hrs haliases hw e).judge
  have hverdict : m.verdict aliases w e w.platform.now = .ok j := hj
  have hhandled := m.handled_handle aliases w e w.platform.now
  generalize m.handle aliases w e w.platform.now = pass at hhandled ⊢
  cases hhandled with
  | broke hbroke => cases hverdict.symm.trans hbroke
  | rested hrested =>
    cases hverdict.symm.trans hrested
    exact ⟨⟨hm.rule, hm.cooldown, hm.nonneg, hm.timer⟩, j, rfl, hverdict, hreveals⟩
  | @fired _ after _ _ hfired _ _ hrecord =>
    cases hverdict.symm.trans hfired
    obtain ⟨timer, hplain, htimer⟩ := hm.timer.recordFired hw.offset hw.admits.inCalendar after.platform.solar
    have hcooldown := m.retrigger.recordFired_cooldown w.platform.now after.platform.solar
    cases hrecord.symm.trans hplain
    rw [hrecord] at hcooldown
    exact ⟨⟨hm.rule, hcooldown.trans hm.cooldown, hm.nonneg, htimer⟩, j, rfl, hverdict, hreveals⟩
  | @unplanned _ after _ _ _ _ _ hrecord =>
    obtain ⟨timer, hplain, -⟩ := hm.timer.recordFired hw.offset hw.admits.inCalendar after.platform.solar
    cases hrecord.symm.trans hplain

end Machine

namespace World

structure Answerable (rs : RuleSet) (offset : Option Int) (w : World) : Prop where
  platform : w.platform.Suits rs offset
  lastRuleSet : w.lastRuleSet = rs
  names : w.engine.ruleNames = rs.rules.map (·.name)
  aliases : w.engine.book.aliases.Searchable
  machines : ∀ m ∈ w.engine.book.machines, m.Answerable rs offset

def AnswerableAt (rs : RuleSet) (offset : Option Int) (now : Moment) (w : World) : Prop :=
  w.Answerable rs offset ∧ w.platform.now = now

section

variable {rs : RuleSet} {offset : Option Int} {now : Moment} {w : World}

/-- Loading the rules makes such a world, or changes nothing. -/
theorem answerable_of_load (time : Option Moment) (hrs : rs.Answerable) (hw : w.platform.Suits rs offset) :
    (∃ fault, w.load rs time = (w, .error fault)) ∨ (w.load rs time).1.Answerable rs offset := by
  rw [load, Engine.load]
  cases hbuild : RuleBook.build rs (time.getD w.platform.now) w.platform.solar with
  | error fault => exact .inl ⟨fault, rfl⟩
  | ok book =>
    have hholds := RuleBook.holds_of_build hbuild
    obtain ⟨bound, hbound, hrest⟩ := bind_eq_ok.mp hbuild
    obtain ⟨machines, -, hrest⟩ := bind_eq_ok.mp hrest
    obtain ⟨armed, -, hbook⟩ := bind_eq_ok.mp hrest
    cases hbook
    refine .inr ⟨hw, rfl, ?_, fun b hb => ?_, fun m hm => ?_⟩
    · exact (congrArg (·.map (·.name)) hholds.inOrder).symm ▸ (List.map_map ..).symm
    · rcases AliasRegistry.mem_of_registerAll (RuleBook.registerAll_of_bindAll hbound) b hb with hnone | hlisted
      · cases hnone
      · exact hrs.aliases b hlisted
    · have hrule : m.rule ∈ rs.rules := hholds.inOrder ▸ List.mem_map_of_mem hm
      have hfresh := hholds.fresh m hm
      have hperiodic := hrs.periodic m.rule hrule
      refine ⟨hrule, hfresh.cooldown, hfresh.cooldown_nonneg, ⟨?_, hfresh.nextTick hperiodic, ?_⟩⟩
      · rw [hfresh.specs, hperiodic]
      · simp [hfresh.lastFired]

theorem passLaw_answerable (hrs : rs.Answerable) : PassLaw (fun _ => True) (AnswerableAt rs offset now) := by
  refine passLaw_of_frame (fun hbook _ hlast hnow hsolar h => ?_) fun time _ h => ?_
  · obtain ⟨⟨⟨hoffset, hadmits⟩, hlastRuleSet, hnames, haliases, hmachines⟩, hsame⟩ := h
    refine ⟨⟨⟨hnow ▸ hoffset, by rwa [hnow, hsolar]⟩, hlast.trans hlastRuleSet, ?_, hbook ▸ haliases,
      hbook ▸ hmachines⟩, hnow.trans hsame⟩
    rwa [Engine.ruleNames, hbook]
  · have hnow : (_ : World).platform.now = now := h.2
    rw [h.1.lastRuleSet]
    rcases answerable_of_load time hrs h.1.platform with ⟨fault, hsame⟩ | hload
    · rwa [hsame]
    · refine ⟨hload, ?_⟩
      rw [load]
      split <;> exact hnow

end

end World
end Domotics
