import Domotics.Engine.Process
import Mathlib.Tactic.SplitIfs

/-!
Worlds with a past. A world may have been through loads, fires and reports before; its engine then counts
generations from a later one on, it has records of earlier fires, and its journal begins with what has
happened. Nothing that actions of rules do depends on any of this: they do the same in a world with a past
as in the same world without it, and what they note comes after the past.
-/

namespace Domotics

def Journal.append (j k : Journal) : Journal where
  reports := j.reports ++ k.reports
  log := j.log ++ k.log
  trail := j.trail ++ k.trail

/-- The past of a world: the generations of rules that it has seen, and its journal. -/
structure Past where
  generations : Nat
  journal : Journal

structure Fires where
  history : List FiringRecord
  counts : List (Document × Nat)

def Fires.add (fires : Fires) (r : FiringRecord) : Fires :=
  { history := Engine.lastOf Engine.historySize (fires.history ++ [r])
    counts := Engine.countUp r.rule fires.counts }

variable (past : Past) (fires : Fires)

def Engine.aged (e : Engine) : Engine :=
  { e with
    generation := past.generations + e.generation
    history := fires.history
    fireCounts := fires.counts }

/-- A world with a past, and with other fires on record. -/
def World.aged (v : World) : World :=
  { v with
    engine := v.engine.aged past fires
    journal := past.journal.append v.journal }

def FiringState.aged (s : FiringState) : FiringState := { s with world := s.world.aged past fires }

namespace World

variable (v : World)

@[simp] theorem aged_platform : (v.aged past fires).platform = v.platform := rfl

@[simp] theorem aged_bus : (v.aged past fires).bus = v.bus := rfl

@[simp] theorem aged_lastRuleSet : (v.aged past fires).lastRuleSet = v.lastRuleSet := rfl

@[simp] theorem aged_generation :
    (v.aged past fires).engine.generation = past.generations + v.engine.generation := rfl

theorem aged_setPlatform (platform : Platform) :
    { v.aged past fires with platform } = World.aged past fires { v with platform } := rfl

theorem aged_setBus (bus : Bus Listener) :
    { v.aged past fires with bus } = World.aged past fires { v with bus } := rfl

theorem aged_enqueue (e : Event) :
    { v.aged past fires with engine := (v.aged past fires).engine.enqueue e } =
      World.aged past fires { v with engine := v.engine.enqueue e } := rfl

@[simp] theorem aged_report (r : Report) :
    (v.aged past fires).report r = (v.report r).aged past fires := by
  simp [report, aged, Journal.append]

@[simp] theorem aged_note (line : LogLine) :
    (v.aged past fires).note line = (v.note line).aged past fires := by
  simp [note, aged, Journal.append]

@[simp] theorem aged_mark (x : Happening) :
    (v.aged past fires).mark x = (v.mark x).aged past fires := by
  simp [mark, aged, Journal.append]

theorem aged_recordFire (r : FiringRecord) :
    { v.aged past fires with engine := (v.aged past fires).engine.recordFire r } =
      World.aged past (fires.add r) { v with engine := v.engine.recordFire r } := by
  simp only [aged, Engine.aged, Engine.recordFire, Fires.add]

theorem load_aged (rs : RuleSet) (now : Option Moment) :
    (v.aged past fires).load rs now = ((v.load rs now).1.aged past fires, (v.load rs now).2) := by
  rw [load, load, aged_platform, Engine.load, Engine.load]
  cases RuleBook.build rs (now.getD v.platform.now) v.platform.solar <;> rfl

theorem reload_aged (now : Option Moment) :
    (v.aged past fires).reload now = ((v.reload now).1.aged past fires, (v.reload now).2) := by
  rw [reload, reload, aged_lastRuleSet, load_aged, aged_platform]
  rcases v.load v.lastRuleSet now with ⟨next, fault | ⟨⟩⟩
  · rfl
  · simp

/-- A rule is kept in both if it is of the present generation. -/
theorem storeMachine_aged (generation index : Nat) (m : Machine) :
    (v.aged past fires).storeMachine (past.generations + generation) index m =
      (v.storeMachine generation index m).aged past fires := by
  have hgeneration : past.generations + v.engine.generation = past.generations + generation ↔
      v.engine.generation = generation := Nat.add_left_cancel_iff
  simp only [storeMachine, Engine.store, aged_generation, hgeneration]
  split <;> rfl

theorem defer_aged (e : Event) :
    (v.aged past fires).defer e = (v.defer e).aged past fires := by
  rw [defer, aged_enqueue, aged_report, defer]

theorem deferAll_aged (e : Event) (subscriptions : List (EventFilter × Listener)) :
    deferAll e subscriptions (v.aged past fires) = (deferAll e subscriptions v).aged past fires := by
  refine List.foldl_hom (World.aged past fires) fun v s => ?_
  split
  · exact defer_aged past fires v e
  · rfl

theorem foldl_deferAll_aged (subscriptions : List (EventFilter × Listener)) (events : List Event) :
    events.foldl (fun w e => deferAll e subscriptions w) (v.aged past fires) =
      (events.foldl (fun w e => deferAll e subscriptions w) v).aged past fires :=
  List.foldl_hom (World.aged past fires) fun v e => deferAll_aged past fires v e subscriptions

theorem publishWithin_aged (e : Event) :
    (v.aged past fires).publishWithin e = (v.publishWithin e).aged past fires := by
  rw [publishWithin, publishWithin, aged_platform, aged_mark]
  simp only [aged_bus, aged_setBus, foldl_deferAll_aged]
  split_ifs <;> rfl

theorem updateWithin_aged (r : Reference) (x : Value) (source : String) :
    (v.aged past fires).updateWithin r x source = (v.updateWithin r x source).aged past fires := by
  rw [updateWithin, updateWithin, aged_platform]
  dsimp only
  rw [aged_setPlatform, publishWithin_aged]

theorem commandWithin_aged (r : Reference) (x : Value) (source : String) :
    (v.aged past fires).commandWithin r x source = (v.commandWithin r x source).aged past fires := by
  rw [commandWithin, commandWithin, aged_platform]
  dsimp only
  rw [aged_setPlatform, publishWithin_aged, aged_platform]
  split
  · exact updateWithin_aged past fires _ r x source
  · rfl

end World

namespace FiringState

variable (s : FiringState)

@[simp] theorem aged_world : (s.aged past fires).world = s.world.aged past fires := rfl

@[simp] theorem aged_firing : (s.aged past fires).firing = s.firing := rfl

theorem map_aged {f : World → World} (hf : ∀ v : World, f (v.aged past fires) = (f v).aged past fires) :
    (s.aged past fires).map f = (s.map f).aged past fires := by
  rw [map, aged_world, hf]
  rfl

def agedOut {α : Type} (out : FiringState × α) : FiringState × α := (out.1.aged past fires, out.2)

theorem dispatch_aged (target : ActionTarget) (x : Value) {act : World → Reference → World}
    (hact : ∀ (v : World) (r : Reference), act (v.aged past fires) r = (act v r).aged past fires) :
    (s.aged past fires).dispatch target x act = agedOut past fires (s.dispatch target x act) := by
  have hdevice : (s.aged past fires).deviceOf target x = s.deviceOf target x := rfl
  rw [dispatch, dispatch, hdevice]
  rcases s.deviceOf target x with fault | _ | r
  · rfl
  · rfl
  · cases x.text with
    | error fault => rfl
    | ok _ =>
      dsimp only
      rw [map_aged past fires s fun v => hact v r]
      rfl

theorem command_aged (target : ActionTarget) (x : Value) :
    (s.aged past fires).command target x = agedOut past fires (s.command target x) :=
  dispatch_aged past fires s target x fun v r => v.commandWithin_aged past fires r x "platform"

theorem update_aged (target : ActionTarget) (x : Value) :
    (s.aged past fires).update target x = agedOut past fires (s.update target x) :=
  dispatch_aged past fires s target x fun v r => v.updateWithin_aged past fires r x "platform"

theorem logged_aged {α : Type} (line : α → LogLine) (out : FiringState × Result α) :
    logged line (agedOut past fires out) = agedOut past fires (logged line out) := by
  obtain ⟨s, fault | a⟩ := out
  · rfl
  · rw [logged, agedOut, logged]
    dsimp only
    rw [map_aged past fires s fun v => v.aged_note past fires (line a)]
    rfl

theorem notify_aged (template : Document) :
    (s.aged past fires).notify template = agedOut past fires (s.notify template) := by
  rw [notify, notify, aged_firing]
  split
  · rfl
  · cases messageOf s.firing template <;> rfl

theorem count_aged (store key : Document) :
    (s.aged past fires).count store key = agedOut past fires (s.count store key) := by
  rw [count, count, aged_firing, aged_world, World.aged_platform]
  split
  · rfl
  · dsimp only
    split <;> rfl

theorem reload_aged (now : Option Moment) :
    (s.aged past fires).reload now = agedOut past fires (s.reload now) := by
  rw [reload, aged_world, World.reload_aged]
  rfl

end FiringState

namespace Action

open FiringState

mutual

theorem run_aged (s : FiringState) (a : Action) :
    run (s.aged past fires) a = agedOut past fires (run s a) := by
  cases a with
  | command target v =>
    rw [run, command_aged, run]
    rfl
  | update target v =>
    rw [run, update_aged, run]
    rfl
  | notify template => exact notify_aged past fires s template
  | counter store key => exact count_aged past fires s store key
  | sequence steps => exact runAll_aged s steps
  | fail message => rfl
  | record =>
    rw [run, run, map_aged past fires s fun v => v.aged_note past fires _]
    rfl
  | send target v =>
    rw [run, command_aged, run]
    exact logged_aged past fires .dispatched _
  | set target v =>
    rw [run, update_aged, run]
    exact logged_aged past fires .dispatched _
  | resolve spec type =>
    rw [run, run]
    exact logged_aged past fires .resolved (s, _)
  | process event =>
    have henqueue (e : Event) (v : World) : World.note { v.aged past fires with
        engine := (v.aged past fires).engine.enqueue e } (.reported {}) =
          (World.note { v with engine := v.engine.enqueue e } (.reported {})).aged past fires := by
      rw [World.aged_enqueue, World.aged_note]
    rw [run, run, map_aged past fires s fun v => henqueue _ v]
    rfl
  | tick =>
    rw [run, run, map_aged past fires s fun v => v.aged_note past fires _]
    rfl
  | reload now => exact reload_aged past fires s now
  | withoutServices => rfl

theorem runAll_aged (s : FiringState) (actions : List Action) :
    runAll (s.aged past fires) actions = agedOut past fires (runAll s actions) := by
  cases actions with
  | nil => rfl
  | cons a rest =>
    rw [runAll, run_aged s a, runAll]
    rcases run s a with ⟨t, fault | ⟨⟩⟩
    · rfl
    · exact runAll_aged t rest

end

theorem perform_aged (s : FiringState) (a : Action) :
    perform (s.aged past fires) a = agedOut past fires (perform s a) := by
  rw [perform, run_aged, perform]
  dsimp only [agedOut]
  rw [map_aged past fires (run s a).1 fun v => v.aged_mark past fires (.acted a)]

theorem runEach_aged (s : FiringState) (actions : List Action) :
    runEach (s.aged past fires) actions = agedOut past fires (runEach s actions) := by
  induction actions generalizing s with
  | nil => rfl
  | cons a rest ih =>
    rw [runEach, perform_aged, runEach]
    rcases perform s a with ⟨t, fault | ⟨⟩⟩
    · dsimp only [agedOut]
      rw [ih t]
      rfl
    · exact ih t

end Action
end Domotics
