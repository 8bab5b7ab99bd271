import Domotics.Proofs.Engine.Loadable
import Domotics.Proofs.Service.Completion

/-!
Loads that fail. A service that refuses a configuration or a rule set is the service that it was before: its
rules with all that they remember, the events that wait, the history and the rule set that it would load
again. So a failed load can be left out of whatever the service is asked to do, and all else is answered as
it was.
-/

namespace Domotics

namespace Service

def resetHistory (s : Service) : Service :=
  { s with world := { s.world with engine := s.world.engine.resetHistory } }

/-- What a service can be asked: to take a call from outside, to load rules, to forget its history, and
what it has planned or recorded. -/
inductive Request where
  | call (c : World.Call)
  | loadConfig (config : Document)
  | loadRuleSet (rs : RuleSet)
  | reload
  | resetHistory
  | nextWakeup
  | ruleNames
  | records (name : Document) (limit : Int)

inductive Answer where
  | ended (e : Ending Unit)
  | loaded (r : Result Unit)
  | read (r : Result RuleSet)
  | wakeup (r : Result (Option Moment))
  | names (names : List Document)
  | records (records : List FiringRecord)

def Answer.refuses : Answer → Bool
  | loaded (.error _) | read (.error _) => true
  | _ => false

def serve (fuel : Nat) (s : Service) : Request → Service × Answer
  | .call c => match s.perform fuel c with | (s, e) => (s, .ended e)
  | .loadConfig config => match s.loadConfig config with | (s, r) => (s, .read r)
  | .loadRuleSet rs => match s.loadRuleSet rs with | (s, r) => (s, .loaded r)
  | .reload => match s.reload with | (s, r) => (s, .loaded r)
  | .resetHistory => (s.resetHistory, .ended (.returned ()))
  | .nextWakeup => (s, .wakeup s.nextWakeup)
  | .ruleNames => (s, .names s.ruleNames)
  | .records name limit => (s, .records (s.recordsOf name limit))

def serveAll (fuel : Nat) : Service → List Request → Service × List Answer
  | s, [] => (s, [])
  | s, x :: rest =>
    let (s, answer) := s.serve fuel x
    let (s, answers) := serveAll fuel s rest
    (s, answer :: answers)

def granted (requests : List Request) (answers : List Answer) : List Request :=
  ((requests.zip answers).filter fun x => !x.2.refuses).map (·.1)

/-- Whether a rule set can be loaded now. Without an engine it is only kept. -/
def Accepts (s : Service) (rs : RuleSet) : Prop :=
  s.running = true → rs.Loadable s.world.platform.now s.world.platform.solar

end Service

namespace World

variable {w : World} {rs : RuleSet} {now : Option Moment}

theorem load_of_not_loadable (h : ¬ rs.Loadable (now.getD w.platform.now) w.platform.solar) :
    ∃ fault, w.load rs now = (w, .error fault) := by
  cases hbuild : RuleBook.build rs (now.getD w.platform.now) w.platform.solar with
  | ok book => exact absurd (RuleBook.build_isOk_iff.mp ⟨book, hbuild⟩) h
  | error fault => exact ⟨fault, by simp only [load, Engine.load, hbuild]⟩

theorem load_of_loadable (h : rs.Loadable (now.getD w.platform.now) w.platform.solar) :
    ∃ w', w.load rs now = (w', .ok ()) := by
  obtain ⟨book, hbuild⟩ := RuleBook.build_isOk_iff.mpr h
  exact ⟨_, load_of_build hbuild⟩

theorem load_cases (w : World) (rs : RuleSet) (now : Option Moment) :
    (∃ w', w.load rs now = (w', .ok ())) ∨ ∃ fault, w.load rs now = (w, .error fault) := by
  by_cases h : rs.Loadable (now.getD w.platform.now) w.platform.solar
  · exact .inl (load_of_loadable h)
  · exact .inr (load_of_not_loadable h)

end World

namespace Service

variable {s : Service} {rs : RuleSet} {config : Document} (fuel : Nat)

theorem loadRuleSet_of_accepts (h : s.Accepts rs) : (s.loadRuleSet rs).2 = .ok () := by
  rw [loadRuleSet]
  cases hrunning : s.running with
  | false => rfl
  | true =>
    have hloads : ∃ w', s.world.load rs none = (w', .ok ()) := World.load_of_loadable (h hrunning)
    obtain ⟨w', hload⟩ := hloads
    simp [hload]

theorem loadRuleSet_of_not_accepts (h : ¬ s.Accepts rs) :
    ∃ fault, s.loadRuleSet rs = (s, .error fault) := by
  obtain ⟨hrunning, hnot⟩ := Classical.not_imp.mp h
  have hrefused : ∃ fault, s.world.load rs none = (s.world, .error fault) :=
    World.load_of_not_loadable hnot
  obtain ⟨fault, hload⟩ := hrefused
  exact ⟨fault, by rw [loadRuleSet, if_neg (by simp [hrunning]), hload]⟩

theorem loadRuleSet_fails_iff : (∃ fault, (s.loadRuleSet rs).2 = .error fault) ↔ ¬ s.Accepts rs := by
  constructor
  · rintro ⟨fault, hfault⟩ haccepts
    rw [loadRuleSet_of_accepts haccepts] at hfault
    cases hfault
  · intro hnot
    obtain ⟨fault, hload⟩ := loadRuleSet_of_not_accepts hnot
    exact ⟨fault, by rw [hload]⟩

theorem loadConfig_fails_iff : (∃ fault, (s.loadConfig config).2 = .error fault) ↔
    ∀ rs, s.parseConfig config = .ok rs → ¬ s.Accepts rs := by
  rw [loadConfig]
  cases s.parseConfig config with
  | error fault => simp
  | ok rs =>
    have hfails : (∃ fault, (s.loadRuleSet rs).2 = .error fault) ↔ ¬ s.Accepts rs :=
      loadRuleSet_fails_iff
    simp only [Except.ok.injEq, forall_eq', ← hfails]
    rcases s.loadRuleSet rs with ⟨next, fault | ⟨⟩⟩ <;> simp [Except.map]

theorem reload_cases (s : Service) :
    s.reload.2 = .ok () ∨ ∃ fault, s.reload = (s, .error fault) := by
  obtain ⟨world, hasPlatform, hasBus, running, subscribed, actions, ruleSet⟩ := s
  cases running with
  | false => exact .inl rfl
  | true =>
    cases ruleSet with
    | none => exact .inl rfl
    | some rs =>
      rcases world.load_cases rs none with ⟨w', hload⟩ | ⟨fault, hload⟩
      · exact .inl (by simp only [reload, hload])
      · exact .inr ⟨fault, by simp only [reload, hload]⟩

/-- A request that is refused leaves the service as it is. -/
theorem serve_of_refuses (x : Request) (h : (s.serve fuel x).2.refuses = true) :
    (s.serve fuel x).1 = s := by
  cases x with
  | call c => cases h
  | loadConfig config =>
    rw [serve, loadConfig] at h ⊢
    cases hparse : s.parseConfig config with
    | error fault => rfl
    | ok rs =>
      by_cases haccepts : s.Accepts rs
      · have hok := loadRuleSet_of_accepts haccepts
        simp only [hparse, hok] at h
        cases h
      · obtain ⟨fault, hload⟩ := loadRuleSet_of_not_accepts haccepts
        simp only [hload]
  | loadRuleSet rs =>
    rw [serve] at h ⊢
    by_cases haccepts : s.Accepts rs
    · have hok := loadRuleSet_of_accepts haccepts
      simp only [hok] at h
      cases h
    · obtain ⟨fault, hload⟩ := loadRuleSet_of_not_accepts haccepts
      simp only [hload]
  | reload =>
    rw [serve] at h ⊢
    rcases s.reload_cases with hload | ⟨fault, hload⟩
    · simp only [hload] at h
      cases h
    · simp only [hload]
  | resetHistory => cases h
  | nextWakeup => cases h
  | ruleNames => cases h
  | records name limit => cases h

theorem granted_cons (x : Request) (answer : Answer) (requests : List Request) (answers : List Answer) :
    granted (x :: requests) (answer :: answers) =
      if answer.refuses then granted requests answers else x :: granted requests answers := by
  cases h : answer.refuses <;> simp [granted, h]

/-- A load is refused if its configuration cannot be read or its rule set cannot be loaded. A request that is
refused leaves the service as it is, so that a service that is asked for all but the refused loads comes to
the same state and gives the same answers. -/
theorem failed_loads_change_nothing (s : Service) :
    (∀ rs, (∃ fault, (s.loadRuleSet rs).2 = .error fault) ↔ ¬ s.Accepts rs) ∧
    (∀ config, (∃ fault, (s.loadConfig config).2 = .error fault) ↔
      ∀ rs, s.parseConfig config = .ok rs → ¬ s.Accepts rs) ∧
    (∀ x, (s.serve fuel x).2.refuses = true → (s.serve fuel x).1 = s) ∧
    ∀ requests, s.serveAll fuel (granted requests (s.serveAll fuel requests).2) =
      ((s.serveAll fuel requests).1, (s.serveAll fuel requests).2.filter fun answer => !answer.refuses) := by
  refine ⟨fun rs => loadRuleSet_fails_iff, fun config => loadConfig_fails_iff, serve_of_refuses fuel,
    fun requests => ?_⟩
  -- A refused request is left out, and the rest goes on from the same service.
  induction requests generalizing s with
  | nil => rfl
  | cons x rest ih =>
    have hrest := ih (s.serve fuel x).1
    rw [serveAll]
    dsimp only
    rw [granted_cons, List.filter_cons]
    cases hrefuses : (s.serve fuel x).2.refuses with
    | true =>
      rw [serve_of_refuses fuel x hrefuses] at hrest ⊢
      simpa using hrest
    | false =>
      simp only [Bool.not_false, Bool.false_eq_true, if_false, if_true]
      rw [serveAll]
      dsimp only
      rw [hrest]

def namesakes : RuleSet := { rules := [{ name := .text "answer" }, { name := .text "answer" }] }

/-- A command, a rule set that is refused, ten seconds, and a tick. -/
def interruptedRequests : List Request :=
  [.call (.command ⟨.item, "lamp"⟩ (.onOff .off) "user"), .loadRuleSet namesakes,
    .call (.adjust { now := ⟨10000000, none⟩ }), .call (.tick none)]

theorem failed_loads_change_nothing_interrupted :
    let out := answeringService.serveAll 5 interruptedRequests
    ¬ answeringService.Accepts namesakes ∧
    out.2.map (·.refuses) = [false, true, false, false] ∧
    (answeringService.serve 5 (.loadRuleSet namesakes)).1 = answeringService ∧
    answeringService.serveAll 5 (granted interruptedRequests out.2) =
      (out.1, out.2.filter fun answer => !answer.refuses) := by
  intro out
  obtain ⟨hfails, -, hkept, hrun⟩ := failed_loads_change_nothing 5 answeringService
  have hrefuses : (answeringService.serve 5 (.loadRuleSet namesakes)).2.refuses = true := by
    decide +kernel
  have hfault : (answeringService.loadRuleSet namesakes).2.isOk = false := by decide +kernel
  refine ⟨(hfails namesakes).mp ?_, by decide +kernel, hkept _ hrefuses, hrun interruptedRequests⟩
  cases hload : (answeringService.loadRuleSet namesakes).2 with
  | ok _ =>
    rw [hload] at hfault
    cases hfault
  | error fault => exact ⟨fault, rfl⟩

end Service
end Domotics
