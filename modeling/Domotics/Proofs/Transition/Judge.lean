import Domotics.Proofs.Result
import Domotics.Proofs.Run.Verdict
import Domotics.Proofs.Transition.Answers

/-!
A pass of a rule that waits for a transition of a device: it fires on an update of the device that is the
transition, seen from what the rule remembers, if it has rested; it notes the value of every update of
the device, and nothing else makes it fire.
-/

namespace Domotics

open Memory

/-- The target of a predicate stands for a device, which accepts the type of the predicate. -/
structure Predicate.StandsFor (p : Predicate) (aliases : AliasRegistry) (c : Catalog)
    (d : Reference) : Prop where
  resolves : ∃ found, Resolution.strict aliases c p.target p.type = .ok found ∧ found.ref = d
  accepts : ∃ accepted, c.accepted? d = some accepted ∧ ∀ t ∈ p.type, accepted.contains t = true

theorem Predicate.standsFor_item {p : Predicate} {aliases : AliasRegistry} {c : Catalog}
    {name : String} (item : Item) (htarget : p.target = .text name)
    (hname : aliases.lookup? name = none) (hitem : c.item? name = some item)
    (htype : ∀ t ∈ p.type, item.accepts.contains t = true) :
    p.StandsFor aliases c ⟨.item, name⟩ where
  resolves := by
    have hdescribe : c.describe? ⟨.item, name⟩ = some { ref := ⟨.item, name⟩ } := by
      simp [Catalog.describe?, hitem]
    refine ⟨{ ref := ⟨.item, name⟩ }, ?_, rfl⟩
    simp [Resolution.strict, htarget, Resolution.ofTarget, Resolution.ofText, hname,
      Resolution.byName, hdescribe, Resolution.exact]
  accepts := ⟨item.accepts, by simp [Catalog.accepted?, hitem], htype⟩

/-- A rule that waits for a transition and nothing else: it has one trigger and no suppressors, and it
always runs. -/
structure Rule.WaitsFor (r : Rule) (p : Predicate) : Prop where
  kind : p.kind = .goes ∨ p.kind = .goesFrom
  triggers : r.triggers = [.device p]
  suppressors : r.suppressors = []
  schedule : r.schedule = {}
  runsByDefault : r.runsByDefault = true
  periodic : r.periodic = []

theorem Retrigger.mayFire_eq_true_iff {r : Retrigger} {now : Moment} {may : Bool}
    (h : r.mayFire now = .ok may) :
    may = true ↔ ∀ t ∈ r.lastFired, Moment.AtLeast r.cooldown t now := by
  constructor
  · rintro rfl t ht
    exact atLeast_of_mayFire h ht
  · intro hrested
    rw [mayFire] at h
    cases hlast : r.lastFired with
    | none =>
      simp only [hlast] at h
      cases h
      rfl
    | some last =>
      obtain ⟨elapsed, hsince, hle⟩ := hrested last hlast
      simp only [hlast, hsince, bind, Except.bind, pure, Except.pure] at h
      cases h
      exact decide_eq_true hle

namespace StateTable

variable {t : StateTable} {e : Event} {d : Reference}

theorem valueBefore_of_updates (h : e.updates d = true) (last : Option Moment) :
    t.valueBefore e = Memory.before ⟨t.get? d, last⟩ e := by
  have href : e.ref = some d := by simp_all [Event.updates]
  simp [valueBefore, before, href]

theorem get?_record : (t.record e).get? d = if e.updates d then some e.new else t.get? d := by
  rw [record]
  cases href : e.ref with
  | none => simp [Event.updates, href]
  | some r =>
    cases hchanges : e.changesState with
    | false => simp [Event.updates, hchanges]
    | true => simp [Event.updates, href, hchanges, get?_set]

end StateTable

section

variable {r : Rule} {p : Predicate} {d : Reference} {s : Situation} {m : Machine}

theorem Predicate.locate_eq_ok (h : p.StandsFor s.aliases s.catalog d) : p.locate s = .ok d := by
  obtain ⟨⟨found, hfound, rfl⟩, accepted, haccepted, htype⟩ := h
  rw [locate, hfound]
  simp only [bind, Except.bind, haccepted]
  cases hp : p.type with
  | none => rfl
  | some t =>
    have ht := htype t hp
    simp only [ht, if_true]
    rfl

/-- A predicate of a transition holds of updates of its device only. -/
theorem Predicate.holds_eq (hkind : p.kind = .goes ∨ p.kind = .goesFrom) :
    p.holds s d = (s.event.updates d && p.isTransition s.old s.event.new) := by
  rw [holds, isTransition, Event.updates]
  rcases hkind with hkind | hkind
  · simp only [hkind, Bool.and_assoc]
  · simp only [hkind, Bool.and_assoc]

theorem Expression.evaluateAny_device (h : p.locate s = .ok d) :
    (evaluateAny s [.device p]).result = .ok (p.holds s d) := by
  have hp : p.evaluate s = { result := .ok (p.holds s d) } := by rw [Predicate.evaluate, h]
  cases hholds : p.holds s d <;> simp [evaluateAny, evaluate, hp, hholds, Verdict.orElse]

/-- Such a rule fires on an event of a device if its predicate holds and it has rested. -/
theorem Machine.firing_iff_of_judge (hwaits : m.rule.WaitsFor p)
    (hstands : p.StandsFor s.aliases s.catalog d) (hdevice : s.event.ofDevice = true) {j : Judgement}
    (h : m.judge s = .ok j) :
    j.state = .firing ↔ p.holds s d = true ∧
      ∀ t ∈ m.retrigger.lastFired, Moment.AtLeast m.retrigger.cooldown t s.now := by
  have hkind : s.event.kind ≠ .periodic := by simpa [Event.ofDevice] using hdevice
  have hclass : m.rule.schedule.classify s.now s.solar = .ok .neutral := by
    rw [hwaits.schedule]
    rfl
  rw [judge, hwaits.suppressors] at h
  simp only [Expression.evaluateAny, judgeSchedule, hclass, hwaits.runsByDefault, Result.ok_bind,
    if_true, judgeCooldown] at h
  obtain ⟨may, hmay, h⟩ := Result.bind_eq_ok.mp h
  rw [← Retrigger.mayFire_eq_true_iff hmay]
  cases may with
  | false =>
    obtain ⟨remaining, -, h⟩ := Result.bind_eq_ok.mp h
    cases h
    simp
  | true =>
    rw [if_pos rfl, judgeTriggers, if_neg hkind, hwaits.triggers] at h
    simp only [Expression.evaluateAny_device (Predicate.locate_eq_ok hstands)] at h
    cases hholds : p.holds s d with
    | false =>
      simp only [hholds] at h
      cases h
      simp
    | true =>
      simp only [hholds] at h
      cases h
      simp

end

namespace Machine

variable {m : Machine} {p : Predicate} {d : Reference} {aliases : AliasRegistry} {w : World}
  {e : Event} {now : Moment} {o : Outcome}

def memory (m : Machine) (d : Reference) : Memory := ⟨m.cache.get? d, m.retrigger.lastFired⟩

@[simp] theorem noting_retrigger (m : Machine) (e : Event) :
    (m.noting e).retrigger = m.retrigger := rfl

@[simp] theorem memory_noting (m : Machine) (e : Event) (d : Reference) (retrigger : Retrigger)
    (phase : RuleState) : ({ m.noting e with retrigger, phase } : Machine).memory d =
      ⟨if e.updates d then some e.new else m.cache.get? d, retrigger.lastFired⟩ := by
  rw [memory, ← StateTable.get?_record]
  rfl

theorem fired_eq_of_verdict (hwaits : m.rule.WaitsFor p)
    (hcooldown : m.retrigger.cooldown = m.rule.cooldown)
    (hstands : p.StandsFor aliases w.platform.catalog d) (hdevice : e.ofDevice = true) {j : Judgement}
    (h : m.verdict aliases w e now = .ok j) :
    (⟨m.rule.name, now, e, j⟩ : Outcome).fired =
      (e.updates d && (m.memory d).fires p m.rule.cooldown ⟨m.rule.name, now, e, j⟩) := by
  have hfiring := firing_iff_of_judge (m := m.noting e) hwaits hstands hdevice h
  rw [Predicate.holds_eq hwaits.kind] at hfiring
  rw [Outcome.fired, Memory.fires]
  cases hupdates : e.updates d with
  | false => simp_all [situation]
  | true =>
    have hbefore := StateTable.valueBefore_of_updates (t := m.cache) hupdates m.retrigger.lastFired
    rw [noting_retrigger, hcooldown] at hfiring
    simp only [situation, hupdates, hbefore, Bool.true_and] at hfiring
    rw [Bool.eq_iff_iff]
    simpa [memory] using hfiring

theorem replays_noting {cooldown : Duration} {retrigger : Retrigger}
    (hfired : o.fired = (o.event.updates d && (m.memory d).fires p cooldown o))
    (hlast : retrigger.lastFired = if o.fired then some o.time else m.retrigger.lastFired) :
    Replays p cooldown (m.memory d) ([o].filter (·.event.updates d))
      (({ m.noting o.event with retrigger, phase := .idle } : Machine).memory d) := by
  rw [memory_noting, hlast]
  cases hupdates : o.event.updates d with
  | false =>
    have hquiet : o.fired = false := by rw [hfired, hupdates, Bool.false_and]
    simpa [hupdates, hquiet, memory] using Replays.nil (p := p) (m.memory d)
  | true =>
    rw [hupdates, Bool.true_and] at hfired
    simpa [hupdates, memory, after] using Replays.cons hfired (.nil _)

/-- A pass of such a rule over an event of a device: over an update of its device the rule answers as its
memory says, and passes over all else leave the memory as it is. -/
theorem replays_handle (hwaits : m.rule.WaitsFor p)
    (hcooldown : m.retrigger.cooldown = m.rule.cooldown)
    (hstands : p.StandsFor aliases w.platform.catalog d) (hdevice : e.ofDevice = true)
    (hok : (m.handle aliases w e now).result = .ok o) :
    o.event = e ∧ o.time = now ∧ (o.fired = true → e.updates d = true) ∧
      Replays p m.rule.cooldown (m.memory d) ([o].filter (·.event.updates d))
        ((m.handle aliases w e now).machine.memory d) := by
  have hfired {j : Judgement} (hverdict : m.verdict aliases w e now = .ok j) :=
    fired_eq_of_verdict hwaits hcooldown hstands hdevice hverdict
  have hupdates {j : Judgement} (hverdict : m.verdict aliases w e now = .ok j)
      (h : (⟨m.rule.name, now, e, j⟩ : Outcome).fired = true) : e.updates d = true := by
    rw [hfired hverdict] at h
    exact (Bool.and_eq_true_iff.mp h).1
  have hhandled := m.handled_handle aliases w e now
  generalize m.handle aliases w e now = pass at hhandled hok ⊢
  cases hhandled with
  | broke => cases hok
  | rested hverdict hrests =>
    cases hok
    refine ⟨rfl, rfl, hupdates hverdict, replays_noting (hfired hverdict) ?_⟩
    simp [Outcome.fired, hrests]
  | fired record hverdict hfires hafter hrecord =>
    cases hok
    refine ⟨rfl, rfl, hupdates hverdict, replays_noting (hfired hverdict) ?_⟩
    have hlast := m.retrigger.recordFired_lastFired now
    simp only [Outcome.fired, hfires, decide_true, if_true]
    rw [← hlast, hrecord]
  | unplanned => cases hok

end Machine
end Domotics
