import Domotics.Proofs.Run.Completion

/-!
Runs of a service to completion. Whatever a service has gone through since it was attached to its bus,
after a load every call from outside that ends has been answered completely: each event of a device
that was published since has been evaluated by every rule, in order and once.
-/

namespace Domotics

namespace Service

open World

/-- Performs a call from outside; the service takes events and ticks itself. -/
def perform (fuel : Nat) (s : Service) : Call → Service × Ending Unit
  | .event e => s.handle fuel e
  | .tick now => match s.tick fuel now with | (s, ending) => (s, ending.map fun _ => ())
  | c => match s.world.perform fuel c with | (world, ending) => ({ s with world }, ending)

def run (fuel : Nat) : Service → List Call → Service × List (Ending Unit)
  | s, [] => (s, [])
  | s, c :: rest =>
    let (s, ending) := s.perform fuel c
    let (s, endings) := run fuel s rest
    (s, ending :: endings)

/-- A service that was attached to a new bus for the first time, and what it can become on it. -/
inductive Attached : Service → Prop where
  | attach {s : Service} (hplatform : s.hasPlatform = true) (hfirst : s.subscribed = false)
      (h : s.attachToNewBus.2 = .ok ()) : Attached s.attachToNewBus.1
  | call {s : Service} (hs : Attached s) (fuel : Nat) (c : Call)
      (hends : (s.perform fuel c).2.settles = true) : Attached (s.perform fuel c).1
  | load {s : Service} (hs : Attached s) (rs : RuleSet) : Attached (s.loadRuleSet rs).1
  | reload {s : Service} (hs : Attached s) : Attached s.reload.1

/-- An attached service at the moment at which a rule set has been loaded. -/
inductive Loaded (rs : RuleSet) : Service → Prop where
  | attach {s : Service} (hplatform : s.hasPlatform = true) (hfirst : s.subscribed = false)
      (hkept : s.ruleSet = some rs) (h : s.attachToNewBus.2 = .ok ()) :
      Loaded rs s.attachToNewBus.1
  | load {s : Service} (hs : Attached s) (h : (s.loadRuleSet rs).2 = .ok ()) :
      Loaded rs (s.loadRuleSet rs).1
  | reload {s : Service} (hs : Attached s) (hkept : s.ruleSet = some rs) (h : s.reload.2 = .ok ()) :
      Loaded rs s.reload.1

variable {s : Service} {rs : RuleSet} (fuel : Nat)

theorem perform_of_running (h : s.running = true) (c : Call) :
    (s.perform fuel c).2 = (s.world.perform fuel c).2 ∧ (s.perform fuel c).1.running = true ∧
      ∃ reports, (s.perform fuel c).1.world =
        { (s.world.perform fuel c).1 with
          journal := { (s.world.perform fuel c).1.journal with reports } } := by
  cases c with
  | event e =>
    rw [perform, handle, World.perform]
    rcases s.world.processEvent fuel e with ⟨next, report | fault | _⟩
    all_goals simp [h, Ending.map]
    · exact ⟨_, rfl⟩
    · exact ⟨_, rfl⟩
    · exact ⟨_, rfl⟩
  | tick now =>
    rw [perform, tick, World.perform]
    rcases s.world.tick fuel now with ⟨next, report | fault | _⟩
    all_goals simp [h, Ending.map]
    · exact ⟨_, rfl⟩
    · exact ⟨_, rfl⟩
    · exact ⟨_, rfl⟩
  | publish e => exact ⟨rfl, h, _, rfl⟩
  | update r v source => exact ⟨rfl, h, _, rfl⟩
  | command r v source => exact ⟨rfl, h, _, rfl⟩
  | adjust p => exact ⟨rfl, h, _, rfl⟩

structure Ready (s : Service) : Prop where
  running : s.running = true
  atRest : s.world.AtRest

structure ReadyWith (rules : List Rule) (s : Service) : Prop where
  running : s.running = true
  idle : s.world.Idle
  holds : s.world.engine.book.Holds rules

/-- A load in a world at rest leaves nothing of what was before it. -/
theorem idle_of_load {w w' : World} {now : Option Moment} (hrest : w.AtRest)
    (h : w.load rs now = (w', .ok ())) :
    w'.Idle ∧ w'.engine.book.Holds rs.rules := by
  obtain ⟨book, hbook, rfl⟩ := load_eq_ok h
  refine ⟨⟨hrest.stays ?_, rfl⟩, hbook⟩
  exact .quiet rfl rfl rfl rfl

theorem stays_load (w : World) (rs : RuleSet) (now : Option Moment) : w.Stays (w.load rs now).1 :=
  .ofActs (acts_load w rs now)

def started (s : Service) : World :=
  { s.world with
    platform := { s.world.platform with attached := true }
    engine := {}
    bus := ({} : Bus Listener).subscribe filter .rules }

theorem atRest_started (s : Service) : s.started.AtRest :=
  ⟨⟨rfl, rfl, fun _ => rfl⟩, rfl, rfl⟩

theorem ready_of_attachToNewBus (hplatform : s.hasPlatform = true) (hfirst : s.subscribed = false)
    (h : s.attachToNewBus.2 = .ok ()) :
    s.attachToNewBus.1.Ready ∧ ∀ rs, s.ruleSet = some rs → s.attachToNewBus.1.ReadyWith rs.rules := by
  cases hkept : s.ruleSet with
  | none =>
    simp only [attachToNewBus, attach, start, hplatform, hfirst, hkept, if_true]
    exact ⟨⟨rfl, s.atRest_started⟩, by simp⟩
  | some rs =>
    simp only [attachToNewBus, attach, start, hplatform, hfirst, hkept, if_true] at h ⊢
    split at h
    · rename_i hload
      obtain ⟨book, hbook, rfl⟩ := load_eq_ok hload
      refine ⟨⟨rfl, s.atRest_started.stays ?_⟩, fun other hother => ?_⟩
      · exact .quiet rfl rfl rfl rfl
      · cases hother
        exact ⟨rfl, ⟨s.atRest_started.stays (.quiet rfl rfl rfl rfl), rfl⟩, hbook⟩
    · cases h

theorem Ready.perform (h : s.Ready) {c : Call} (hends : (s.perform fuel c).2.settles = true) :
    (s.perform fuel c).1.Ready ∧ s.world.trail <+: (s.perform fuel c).1.world.trail := by
  obtain ⟨hending, hrunning, reports, hworld⟩ := perform_of_running fuel h.running c
  rw [hending] at hends
  have hrests := rests_perform fuel h.atRest c (fun h => by rw [h] at hends; cases hends)
  rw [hworld]
  refine ⟨⟨hrunning, ?_⟩, hrests.2⟩
  rw [hworld]
  exact hrests.1.stays (.quiet rfl rfl rfl rfl)

theorem Attached.ready (h : Attached s) : s.Ready := by
  induction h with
  | attach hplatform hfirst h => exact (ready_of_attachToNewBus hplatform hfirst h).1
  | call _ fuel c hends ih => exact (ih.perform fuel hends).1
  | @load s _ rs ih =>
    have hstays := stays_load s.world rs none
    rw [loadRuleSet, if_neg (by simp [ih.running])]
    rcases hload : s.world.load rs none with ⟨world, fault | ⟨⟩⟩
    all_goals rw [hload] at hstays
    all_goals exact ⟨ih.running, ih.atRest.stays hstays⟩
  | @reload s _ ih =>
    rw [Service.reload, ih.running]
    cases hkept : s.ruleSet with
    | none => exact ih
    | some rs => exact ⟨rfl, ih.atRest.stays (stays_load s.world rs none)⟩

theorem Loaded.starts (h : Loaded rs s) : s.ReadyWith rs.rules := by
  cases h with
  | attach hplatform hfirst hkept h => exact (ready_of_attachToNewBus hplatform hfirst h).2 rs hkept
  | @load s hs h =>
    rw [loadRuleSet, if_neg (by simp [hs.ready.running])] at h ⊢
    rcases hload : s.world.load rs none with ⟨world, fault | ⟨⟩⟩
    · rw [hload] at h
      cases h
    · obtain ⟨hidle, hbook⟩ := idle_of_load hs.ready.atRest hload
      exact ⟨hs.ready.running, hidle, hbook⟩
  | @reload s hs hkept h =>
    rw [Service.reload, hs.ready.running, hkept] at h ⊢
    have hload : s.world.load rs none = ((s.world.load rs none).1, .ok ()) := by rw [← h]
    obtain ⟨hidle, hbook⟩ := idle_of_load hs.ready.atRest hload
    exact ⟨rfl, hidle, hbook⟩

theorem Loaded.readyWith (h : Loaded rs s) : s.running = true ∧ s.world.Idle ∧
    s.world.engine.book.machines.map (·.rule) = rs.rules :=
  ⟨h.starts.running, h.starts.idle, h.starts.holds.inOrder⟩

theorem Ready.run {calls : List Call} (h : s.Ready)
    (hends : ∀ x ∈ (s.run fuel calls).2, x.settles = true) :
    s.world.trail <+: (s.run fuel calls).1.world.trail := by
  induction calls generalizing s with
  | nil => exact List.prefix_rfl
  | cons c rest ih =>
    obtain ⟨hfirst, hrest⟩ := List.forall_mem_cons.mp hends
    obtain ⟨hready, htrail⟩ := h.perform fuel hfirst
    exact htrail.trans (ih hready hrest)

variable {rules : List Rule}

theorem completes_perform (hrunning : s.running = true) (hidle : s.world.Idle)
    (hcarries : s.world.Carries rules) {c : Call} (hcall : c.viaBus = true)
    (hends : (s.perform fuel c).2.settles = true)
    (hbreaks : (s.perform fuel c).1.world.breaks = s.world.breaks) :
    (s.perform fuel c).1.running = true ∧ Completes rules s.world (s.perform fuel c).1.world := by
  obtain ⟨hending, hrunning', reports, hworld⟩ := perform_of_running fuel hrunning c
  rw [hending] at hends
  rw [hworld] at hbreaks ⊢
  have hcompletes := World.completes_perform fuel hcall hidle hcarries
    (fun h => by rw [h] at hends; cases hends) hbreaks
  exact ⟨hrunning', hcompletes.trans (.quiet hcompletes.1 hcompletes.2.carries rfl rfl rfl rfl)⟩

theorem completes_run {calls : List Call} (hrunning : s.running = true) (hidle : s.world.Idle)
    (hcarries : s.world.Carries rules) (hcalls : ∀ c ∈ calls, c.viaBus = true)
    (hends : ∀ x ∈ (s.run fuel calls).2, x.settles = true)
    (hbreaks : (s.run fuel calls).1.world.breaks = s.world.breaks) :
    Completes rules s.world (s.run fuel calls).1.world := by
  induction calls generalizing s with
  | nil => exact .quiet hidle hcarries rfl rfl rfl rfl
  | cons c rest ih =>
    obtain ⟨hcall, hothers⟩ := List.forall_mem_cons.mp hcalls
    obtain ⟨hfirst, hrest⟩ := List.forall_mem_cons.mp hends
    have hready : s.Ready := ⟨hrunning, hidle.atRest⟩
    obtain ⟨hnext, htrail⟩ := hready.perform fuel hfirst
    obtain ⟨hnone, hnone'⟩ := breaks_between htrail (hnext.run fuel hrest) hbreaks
    obtain ⟨hrunning', hone⟩ := completes_perform fuel hrunning hidle hcarries hcall hfirst hnone
    exact hone.trans (ih hrunning' hone.1 hone.2.carries hothers hrest hnone')

/-- After a load a service on its bus runs to completion: in every run of updates, commands,
publications, ticks and changes of the platform that ends, and in which no pass breaks, the rules
evaluate exactly the events of devices that are published, each once and in order. -/
theorem runs_to_completion (hloaded : Loaded rs s)
    (hactions : ∀ r ∈ rs.rules, Action.allKeepToBus r.actions = true) {calls : List Call}
    (hcalls : ∀ c ∈ calls, c.viaBus = true)
    (hends : ∀ x ∈ (s.run fuel calls).2, x.settles = true)
    (hbreaks : (s.run fuel calls).1.world.breaks = s.world.breaks) :
    ∃ steps, (s.run fuel calls).1.world.trail = s.world.trail ++ Step.trailOf steps ∧
      RunsToCompletion rs.rules steps := by
  obtain ⟨hrunning, hidle, hrules⟩ := hloaded.readyWith
  have hcompletes := completes_run fuel hrunning hidle ⟨hrules, hactions⟩ hcalls hends hbreaks
  obtain ⟨steps, htrail, hfollows⟩ := hcompletes.2.steps
  exact ⟨steps, htrail, hfollows.runsToCompletion⟩

/-- A rule that answers every event with an update of a lamp, and one that sends it a command every
ten seconds. -/
def answering : RuleSet :=
  let lamp : Reference := ⟨.item, "lamp"⟩
  { rules := [
      { name := .text "answer", triggers := [.all []]
        actions := [.set (.device lamp) (.onOff .on)] },
      { name := .text "beat", periodic := [.every (.ofSeconds 10)]
        actions := [.send (.device lamp) (.onOff .off), .record] }] }

def answeringService : Service :=
  let s : Service := { world := { platform := { now := ⟨0, none⟩ } } }
  (s.attachToNewBus.1.loadRuleSet answering).1

def answeringCalls : List Call :=
  [.command ⟨.item, "lamp"⟩ (.onOff .off) "user", .adjust { now := ⟨10000000, none⟩ }, .tick none]

theorem ok_of_isOk {r : Result Unit} (h : r.isOk = true) : r = .ok () := by
  cases r with
  | ok => rfl
  | error fault => cases h

theorem loaded_answering : Loaded answering answeringService :=
  .load (.attach rfl rfl (ok_of_isOk (by decide +kernel))) (ok_of_isOk (by decide +kernel))

theorem runs_to_completion_answering :
    Loaded answering answeringService ∧
    (∀ r ∈ answering.rules, Action.allKeepToBus r.actions = true) ∧
    (∀ c ∈ answeringCalls, c.viaBus = true) ∧
    (∀ x ∈ (answeringService.run 5 answeringCalls).2, x.settles = true) ∧
    (answeringService.run 5 answeringCalls).1.world.breaks = answeringService.world.breaks ∧
    ∃ steps, (answeringService.run 5 answeringCalls).1.world.trail =
        answeringService.world.trail ++ Step.trailOf steps ∧
      RunsToCompletion answering.rules steps :=
  ⟨loaded_answering, by decide, by decide, by decide +kernel, by decide +kernel,
    runs_to_completion 5 loaded_answering (by decide) (by decide) (by decide +kernel)
      (by decide +kernel)⟩

end Service
end Domotics
