import Domotics.Proofs.Run.Abreast
import Domotics.Proofs.Run.Faults
import Domotics.Proofs.Transition.Answers

/-!
Rules whose actions keep still: they count, they notify and they report, but they neither touch devices nor
hand events to the engine. A turn of such a rule leaves to the rules after it the world that it found, with
one more outcome in the trail at most.
-/

namespace Domotics

namespace Action

mutual

/-- Whether an action leaves alone all that rules look at: it neither commands nor updates devices, so that
it publishes nothing, and it hands no events to the engine. -/
def keepsStill : Action → Bool
  | sequence steps => allKeepStill steps
  | command .. | update .. | send .. | set .. | process _ => false
  | _ => true

def allKeepStill : List Action → Bool
  | [] => true
  | a :: rest => a.keepsStill && allKeepStill rest

end

end Action

namespace World

/-- `w` becomes `w'` while the platform looks the same and nothing is published. The rules and the events
that wait for them stay as they are, unless rules are loaded anew. -/
structure Still (w w' : World) : Prop where
  bus : w'.bus = w.bus
  platform : w'.platform.seen = w.platform.seen
  draining : w'.engine.draining = w.engine.draining
  generation : w.engine.generation ≤ w'.engine.generation
  book : w'.engine.generation = w.engine.generation → w'.engine.book = w.engine.book
  pending : w'.engine.generation = w.engine.generation → w'.engine.pending = w.engine.pending

namespace Still

variable {w w' w'' : World}

theorem trans (h₁ : w.Still w') (h₂ : w'.Still w'') : w.Still w'' where
  bus := h₂.bus.trans h₁.bus
  platform := h₂.platform.trans h₁.platform
  draining := h₂.draining.trans h₁.draining
  generation := Nat.le_trans h₁.generation h₂.generation
  book hsame := by
    have hfirst := h₁.generation
    have hlater := h₂.generation
    rw [h₂.book (by omega), h₁.book (by omega)]
  pending hsame := by
    have hfirst := h₁.generation
    have hlater := h₂.generation
    rw [h₂.pending (by omega), h₁.pending (by omega)]

theorem frame (hbus : w'.bus = w.bus) (hplatform : w'.platform.seen = w.platform.seen)
    (hdraining : w'.engine.draining = w.engine.draining)
    (hgeneration : w'.engine.generation = w.engine.generation)
    (hbook : w'.engine.book = w.engine.book) (hpending : w'.engine.pending = w.engine.pending) :
    w.Still w' :=
  ⟨hbus, hplatform, hdraining, Nat.le_of_eq hgeneration.symm, fun _ => hbook, fun _ => hpending⟩

theorem refl (w : World) : w.Still w := frame rfl rfl rfl rfl rfl rfl

theorem inStep {v v' : World} (hw : w.Still w') (hv : v.Still v')
    (hgeneration : w'.engine.generation = w.engine.generation)
    (hgeneration' : v'.engine.generation = v.engine.generation) (h : w.InStep v) : w'.InStep v' where
  bus := hw.bus.trans (h.bus.trans hv.bus.symm)
  pending := (hw.pending hgeneration).trans (h.pending.trans (hv.pending hgeneration').symm)
  draining := hw.draining.trans (h.draining.trans hv.draining.symm)
  platform := hw.platform.trans (h.platform.trans hv.platform.symm)

theorem mark (w : World) (x : Happening) : w.Still (w.mark x) := frame rfl rfl rfl rfl rfl rfl

theorem load (w : World) (rs : RuleSet) (now : Option Moment) : w.Still (w.load rs now).1 := by
  rw [World.load, Engine.load]
  cases RuleBook.build rs (now.getD w.platform.now) w.platform.solar with
  | error fault => exact refl w
  | ok book => exact ⟨rfl, rfl, rfl, Nat.le_succ _, fun h => absurd h (Nat.succ_ne_self _),
      fun h => absurd h (Nat.succ_ne_self _)⟩

theorem reload (w : World) (now : Option Moment) : w.Still (w.reload now).1 :=
  reload_keeps now (fun x _ h => h.trans (mark _ x)) (load w w.lastRuleSet now)

end Still

end World

open World

namespace FiringState

theorem still_logged {α : Type} {w : World} (line : α → LogLine) (out : FiringState × Result α)
    (h : w.Still out.1.world) : w.Still (logged line out).1.world := by
  rcases out with ⟨s, fault | a⟩
  · exact h
  · exact h.trans (.frame rfl rfl rfl rfl rfl rfl)

theorem still_notify (s : FiringState) (template : Document) :
    s.world.Still (s.notify template).1.world := by
  rw [notify]
  split
  · exact .refl s.world
  · split
    · exact .frame rfl rfl rfl rfl rfl rfl
    · exact .refl s.world

theorem still_count (s : FiringState) (store key : Document) :
    s.world.Still (s.count store key).1.world := by
  rw [count]
  split
  · exact .refl s.world
  · dsimp only
    split
    · exact .frame rfl rfl rfl rfl rfl rfl
    · exact .refl s.world

end FiringState

namespace Action

open FiringState

mutual

theorem still_run (s : FiringState) {a : Action} (h : a.keepsStill = true) :
    s.world.Still (run s a).1.world := by
  cases a with
  | command | update | send | set | process => cases h
  | notify template => exact s.still_notify template
  | counter store key => exact s.still_count store key
  | sequence steps => exact still_runAll s (by simpa [keepsStill] using h)
  | resolve spec type => exact still_logged .resolved _ (.refl s.world)
  | record | tick => exact .frame rfl rfl rfl rfl rfl rfl
  | reload now => exact .reload s.world now
  | fail | withoutServices => exact .refl s.world

theorem still_runAll (s : FiringState) {actions : List Action} (h : allKeepStill actions = true) :
    s.world.Still (runAll s actions).1.world := by
  cases actions with
  | nil => exact .refl s.world
  | cons a rest =>
    have hboth : a.keepsStill = true ∧ allKeepStill rest = true := by simpa [allKeepStill] using h
    have hfirst := still_run s hboth.1
    rw [runAll]
    rcases hr : run s a with ⟨t, fault | ⟨⟩⟩
    · rwa [hr] at hfirst
    · rw [hr] at hfirst
      exact hfirst.trans (still_runAll t hboth.2)

end

theorem still_runEach (s : FiringState) {actions : List Action} (h : allKeepStill actions = true) :
    s.world.Still (runEach s actions).1.world := by
  induction actions generalizing s with
  | nil => exact .refl s.world
  | cons a rest ih =>
    have hboth : a.keepsStill = true ∧ allKeepStill rest = true := by simpa [allKeepStill] using h
    have hfirst : s.world.Still (perform s a).1.world :=
      (still_run s hboth.1).trans (.mark _ (.acted a))
    have hworld : (runEach s (a :: rest)).1 = (runEach (perform s a).1 rest).1 := by
      rw [runEach]
      rcases perform s a with ⟨t, fault | ⟨⟩⟩ <;> rfl
    rw [hworld]
    exact hfirst.trans (ih _ hboth.2)

end Action

namespace Machine

variable {m : Machine} (h : Action.allKeepStill m.rule.actions = true) (aliases : AliasRegistry)
  (w : World) (e : Event) (now : Moment)

include h

theorem still_afterActions : w.Still (m.afterActions aliases w e now) :=
  Action.still_runEach ⟨{ rule := m.rule.name, event := e, now, aliases }, w⟩ h

/-- A pass of such a rule. -/
theorem still_handle : w.Still (m.handle aliases w e now).world := by
  have hbegun : w.Still (w.mark (.began m.rule.name e)) := .mark ..
  have hafter := hbegun.trans (still_afterActions h aliases _ e now)
  have hhandled := m.handled_handle aliases w e now
  generalize m.handle aliases w e now = pass at hhandled ⊢
  cases hhandled with
  | broke => exact hbegun.trans (.mark ..)
  | rested => exact hbegun.trans (.mark ..)
  | fired record _ _ heq =>
    subst heq
    exact hafter.trans (.frame rfl rfl rfl rfl rfl rfl)
  | unplanned _ _ heq =>
    subst heq
    exact hafter.trans (.mark ..)

end Machine

namespace Happening

/-- Whether a pass breaks with a fault from outside the vocabulary of rules. -/
def isEscape : Happening → Bool
  | broke _ _ fault => !fault.isDomain
  | _ => false

theorem countP_isEscape_of_isInner {inner : List Happening} (h : ∀ x ∈ inner, x.isInner = true) :
    inner.countP (·.isEscape) = 0 := by
  refine List.countP_eq_zero.mpr fun x hx => ?_
  have := h x hx
  cases x <;> simp_all [isInner, isDeed, isEscape]

end Happening

namespace World

def escapes (w : World) : Nat := w.trail.countP (·.isEscape)

theorem escapes_lt_broke (w : World) (rule : Document) (e : Event) {fault : Fault}
    (hforeign : fault.isDomain = false) : w.escapes < (w.mark (.broke rule e fault)).escapes := by
  simp [escapes, Happening.isEscape, hforeign]

def Renewed (g : Nat) (w : World) : Prop := g < w.engine.generation

/-- With such rules, or after a pass that broke with such a fault. -/
def Lost (b g : Nat) (w : World) : Prop := b < w.escapes ∨ w.Renewed g

theorem Acts.grows {plain : Prop} {w w' : World} {added : List Happening} (h : w.Acts plain w' added)
    (generation index : Nat) (m : Machine) :
    w.engine.generation ≤ (w'.storeMachine generation index m).engine.generation ∧
      w.trail <+: (w'.storeMachine generation index m).trail := by
  rw [storeMachine_generation, storeMachine_trail, h.trail]
  exact ⟨h.generation, List.prefix_append ..⟩

theorem invariant_of_grows {P : World → Prop} (hgrows : ∀ {w w' : World},
    w.engine.generation ≤ w'.engine.generation → w.trail <+: w'.trail → P w → P w') :
    Invariant P where
  bus _ := hgrows (Nat.le_refl _) List.prefix_rfl
  queue _ _ := hgrows (Nat.le_refl _) List.prefix_rfl
  report _ := hgrows (Nat.le_refl _) List.prefix_rfl
  platform _ := hgrows (Nat.le_refl _) List.prefix_rfl
  published {w} e := hgrows (Nat.le_refl _) (prefix_mark ..)
  processOne {w} e h := by
    refine passAll_keeps (fun {w index m rest} _ hw _ _ => ?_) h (Nat.le_refl _) fun _ => List.drop_zero
    obtain ⟨inner, hacts, -⟩ := m.acts_handle _ w e _
    exact hgrows (hacts.grows ..).1 (hacts.grows ..).2 hw
  tickAll {w} now h := by
    refine tickAll_keeps (fun {w index m rest} _ hw _ _ => ?_) h (Nat.le_refl _) fun _ => List.drop_zero
    obtain ⟨added, hacts⟩ := m.acts_handleTick _ w _
    exact hgrows (hacts.grows ..).1 (hacts.grows ..).2 hw

theorem invariant_lost (b g : Nat) : Invariant (Lost b g) :=
  invariant_of_grows fun hgeneration htrail h =>
    h.imp (Nat.lt_of_lt_of_le · htrail.sublist.countP_le) (Nat.lt_of_lt_of_le · hgeneration)

theorem invariant_renewed (g : Nat) : Invariant (Renewed g) :=
  invariant_of_grows fun hgeneration _ h => Nat.lt_of_lt_of_le h hgeneration

theorem Renewed.storeMachine {g : Nat} {w : World} (h : Renewed g w) (generation index : Nat)
    (m : Machine) : Renewed g (w.storeMachine generation index m) := by
  rwa [Renewed, storeMachine_generation]

theorem Lost.storeMachine {b g : Nat} {w : World} (h : Lost b g w) (generation index : Nat)
    (m : Machine) : Lost b g (w.storeMachine generation index m) :=
  h.imp_right (·.storeMachine generation index m)

end World

namespace Machine

open Happening

/-- What a turn of a rule that keeps still has done to the world when it had the outcomes `outs`: these are
in the trail, unless the turn broke. -/
structure Went {α : Type} (m : Machine) (w : World) (outs : α → List Outcome) (pass : PassResult α) :
    Prop where
  rule : pass.machine.rule = m.rule
  still : w.Still pass.world
  broke : ∀ fault, pass.result = .error fault → w.escapes < pass.world.escapes
  whole : ∀ a, pass.result = .ok a → pass.world.escapes = w.escapes ∧
    (∀ o ∈ outs a, o.rule = m.rule.name) ∧
    ∀ name, outcomesOf name pass.world.trail =
      outcomesOf name w.trail ++ (outs a).filter (·.rule.agrees name)

section

variable {α : Type} {m : Machine} {w : World} {outs : α → List Outcome} {pass : PassResult α} {b g : Nat}

theorem Went.escapes_le (h : Went m w outs pass) : w.escapes ≤ pass.world.escapes := by
  cases hresult : pass.result with
  | error fault => exact Nat.le_of_lt (h.broke fault hresult)
  | ok a => exact Nat.le_of_eq (h.whole a hresult).1.symm

theorem Went.lost (h : Went m w outs pass) (hlost : Lost b g w) : Lost b g pass.world :=
  hlost.imp (Nat.lt_of_lt_of_le · h.escapes_le) (Nat.lt_of_lt_of_le · h.still.generation)

theorem Went.kept (h : Went m w outs pass) (hescapes : w.escapes = b) (hgeneration : w.engine.generation = g)
    (hlost : ¬ Lost b g pass.world) : pass.world.escapes = b ∧ pass.world.engine.generation = g ∧
      ∃ a, pass.result = .ok a := by
  have hb := h.escapes_le
  have hg := h.still.generation
  simp only [Lost, Renewed, not_or, Nat.not_lt] at hlost
  refine ⟨by omega, by omega, ?_⟩
  cases hresult : pass.result with
  | ok a => exact ⟨a, rfl⟩
  | error fault =>
    have hbroke := h.broke fault hresult
    omega

end

variable {m : Machine} (h : Action.allKeepStill m.rule.actions = true) (aliases : AliasRegistry)
  (w : World) (e : Event) (now : Moment)

include h

theorem went_handle : Went m w (fun o => [o]) (m.handle aliases w e now) := by
  obtain ⟨inner, hacts, hinner, hwhole⟩ := m.acts_handle aliases w e now
  have hforeign := (m.noDomainFault_handle aliases w e now).foreign
  have hescapes : (m.handle aliases w e now).world.escapes = w.escapes +
      [m.ending e (m.handle aliases w e now).result].countP (·.isEscape) := by
    rw [World.escapes, hacts.trail, List.countP_append, List.countP_append, List.countP_cons,
      countP_isEscape_of_isInner hinner]
    simp [isEscape, World.escapes]
  refine ⟨(m.passed_handle aliases w e now).rule, still_handle h aliases w e now, fun fault hresult => ?_,
    fun o hresult => ⟨?_, ?_, fun name => ?_⟩⟩
  · simp [hescapes, hresult, ending, isEscape, hforeign fault hresult]
  · rw [hescapes, hresult]
    rfl
  · intro x hx
    rw [List.mem_singleton.mp hx]
    exact (hwhole o hresult).2.rule
  · rw [hacts.trail, outcomesOf_append, outcomesOf_pass _ hinner, hresult]
    cases hagrees : o.rule.agrees name <;> simp [ending, outcomeOf?, hagrees]

theorem went_handleTick : Went m w Option.toList (m.handleTick aliases w now) := by
  have hpass := went_handle h aliases w (.tick now) now
  have hforeign := (m.noDomainFault_handleTick aliases w now).foreign
  have hticked := m.ticked_handleTick aliases w now
  generalize m.handle aliases w (.tick now) now = pass at hpass hticked
  generalize m.handleTick aliases w now = tick at hforeign hticked ⊢
  cases hticked with
  | notDue => exact ⟨rfl, .refl w, by simp, by simp⟩
  | unknown fault =>
    have hlt := w.escapes_lt_broke m.rule.name (.tick now) (hforeign fault rfl)
    exact ⟨rfl, .mark .., fun _ _ => hlt, by simp⟩
  | @passed m' result hresult hplanned =>
    refine ⟨hplanned.rule.trans hpass.rule, hpass.still, fun fault hbroke => ?_, fun a hok => ?_⟩
    · cases result with
      | error fault => exact hpass.broke fault hresult
      | ok o => cases hbroke
    · cases result with
      | error fault => cases hok
      | ok o =>
        cases hok
        exact hpass.whole o hresult
  | unplanned fault hplanned =>
    have hlt := pass.world.escapes_lt_broke m.rule.name (.tick now) (hforeign fault rfl)
    exact ⟨hplanned.rule.trans hpass.rule, hpass.still.trans (.mark ..),
      fun _ _ => Nat.lt_of_le_of_lt hpass.escapes_le hlt, by simp⟩

end Machine
end Domotics
