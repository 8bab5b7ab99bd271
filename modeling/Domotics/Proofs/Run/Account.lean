import Domotics.Proofs.Run.Effect
import Domotics.Proofs.Run.Reload
import Domotics.Proofs.Run.Reply

/-!
The report on a call accounts for every pass once. A round over an event makes one pass of each loaded rule; a call
makes such rounds until no event waits any more; and its report says what came of these passes, whichever of the
events came from outside and whichever were submitted by the actions of a rule.
-/

namespace Domotics

def Ending.answer? {α : Type} : Ending α → Option α
  | returned a => some a
  | _ => none

theorem Ending.returned_of_answer {α : Type} {ending : Ending α} {a : α} (h : ending.answer? = some a) :
    ending = .returned a := by
  cases ending <;> cases h
  rfl

def Machine.isDue (m : Machine) (now : Moment) : Bool :=
  match m.retrigger.due now with
  | .ok due => due
  | .error _ => false

namespace Report

structure Accounts (r : Report) (passes : List Pass) : Prop where
  outcomes : r.outcomes = passes.map (·.outcome)
  evaluated : r.evaluated = r.outcomes.length
  triggered : r.triggered = r.outcomes.countP (·.fired)
  actions : r.actions = ((passes.filter (·.outcome.fired)).map (·.rule.actions.length)).sum
  errors : r.errors = (r.outcomes.filter (·.judgement.state = .errored)).map
    fun o => o.rule.asText ++ ": " ++ o.judgement.reason.text

variable {r r' : Report} {passes passes' : List Pass}

theorem accounts_empty : ({} : Report).Accounts [] := ⟨rfl, rfl, rfl, rfl, rfl⟩

theorem Accounts.merge (h : r.Accounts passes) (h' : r'.Accounts passes') :
    (r.merge r').Accounts (passes ++ passes') where
  outcomes := by rw [Report.merge, h.outcomes, h'.outcomes, List.map_append]
  evaluated := by simp [Report.merge, h.evaluated, h'.evaluated]
  triggered := by simp [Report.merge, h.triggered, h'.triggered]
  actions := by simp [Report.merge, h.actions, h'.actions]
  errors := by simp [Report.merge, h.errors, h'.errors]

/-- The error of a judgement is that of a rule that failed. -/
theorem error_of_formed {j : Judgement} (h : j.Formed) :
    j.error?.map (·.message) = if j.state = .errored then some j.reason.text else none := by
  cases h with
  | suppressed reason _ hreason =>
    cases reason with
    | fault f => exact absurd rfl (hreason f)
    | _ => rfl
  | _ => rfl

theorem accounts_single {p : Pass} (hformed : p.outcome.judgement.Formed) :
    (Report.add {} p.outcome p.rule.actions.length).Accounts [p] where
  outcomes := rfl
  evaluated := rfl
  triggered := by cases hfired : p.outcome.fired <;> simp [Report.add, hfired]
  actions := by cases hfired : p.outcome.fired <;> simp [Report.add, hfired]
  errors := by
    have herror := error_of_formed hformed
    by_cases hstate : p.outcome.judgement.state = .errored
    · rw [if_pos hstate] at herror
      obtain ⟨f, hf, htext⟩ := Option.map_eq_some_iff.mp herror
      simp [Report.add, hf, hstate, htext]
    · rw [if_neg hstate] at herror
      simp [Report.add, Option.map_eq_none_iff.mp herror, hstate]

theorem add_eq_merge (r : Report) (o : Outcome) (n : Nat) : r.add o n = r.merge (Report.add {} o n) := by
  rw [add, add, merge]
  cases o.judgement.error? <;> simp

theorem Accounts.add {m m' : Machine} {aliases : AliasRegistry} {w w' : World} {p : Pass} (h : r.Accounts passes)
    (hcompleted : m.Completed aliases w p m' w') :
    (r.add p.outcome m.rule.actions.length).Accounts (passes ++ [p]) := by
  rw [add_eq_merge, ← hcompleted.rule]
  exact h.merge (accounts_single hcompleted.formed)

end Report

namespace World

/-- Some rules make a round over an event: one pass each, in turn. -/
structure MakesRound (w : World) (rules : List Rule) (e : Event) (now : Moment) (passes : List Pass) (w' : World) :
    Prop where
  rules : passes.map (·.rule) = rules
  whole : ∀ p ∈ passes, p.Whole ∧ p.event = e ∧ p.outcome.time = now
  trail : w'.trail = w.trail ++ passes.flatMap Pass.trail

section

variable {generation index : Nat} {w w' u : World} {rules : List Rule} {e : Event} {now : Moment} {p : Pass}
  {earlier passes : List Pass} {round : Round} {machines : List Machine} {report one : Report}

theorem makesRound_nil (w : World) (e : Event) (now : Moment) : w.MakesRound [] e now [] w := ⟨rfl, by simp, by simp⟩

theorem MakesRound.cons {m m' : Machine} {aliases : AliasRegistry} (hfirst : m.Completed aliases w p m' u)
    (hevent : p.event = e) (htime : p.outcome.time = now)
    (hrest : (u.storeMachine generation index m').MakesRound rules e now passes w') :
    w.MakesRound (m.rule :: rules) e now (p :: passes) w' where
  rules := by rw [List.map_cons, hfirst.rule, hrest.rules]
  whole := List.forall_mem_cons.mpr ⟨⟨hfirst.whole, hevent, htime⟩, hrest.whole⟩
  trail := by rw [hrest.trail, storeMachine_trail, hfirst.trail, List.flatMap_cons, List.append_assoc]

theorem makesRound_passAll (hreport : report.Accounts earlier)
    (h : (passAll round e index machines w report).2 = .ok one) :
    ∃ passes, w.MakesRound (machines.map (·.rule)) e round.now passes (passAll round e index machines w report).1 ∧
      one.Accounts (earlier ++ passes) := by
  induction machines generalizing index w report earlier with
  | nil =>
    cases h
    exact ⟨[], makesRound_nil w e _, by rwa [List.append_nil]⟩
  | cons m rest ih =>
    rw [passAll] at h ⊢
    cases hresult : (m.handle round.aliases w e round.now).result with
    | error fault =>
      simp only [hresult] at h
      cases h
    | ok o =>
      simp only [hresult] at h ⊢
      obtain ⟨p, hevent, rfl, htime, hcompleted⟩ := Machine.completed_handle hresult
      obtain ⟨passes, hround, hone⟩ := ih (hreport.add hcompleted) h
      refine ⟨p :: passes, hround.cons hcompleted hevent htime, ?_⟩
      rwa [List.append_assoc, List.singleton_append] at hone

theorem makesRound_tickAll (hreport : report.Accounts earlier)
    (h : (tickAll round index machines w report).2 = .ok one) :
    ∃ passes, w.MakesRound ((machines.filter (·.isDue round.now)).map (·.rule)) (.tick round.now) round.now passes
        (tickAll round index machines w report).1 ∧ one.Accounts (earlier ++ passes) := by
  induction machines generalizing index w report earlier with
  | nil =>
    cases h
    exact ⟨[], makesRound_nil w _ _, by rwa [List.append_nil]⟩
  | cons m rest ih =>
    rw [tickAll] at h ⊢
    cases hresult : (m.handleTick round.aliases w round.now).result with
    | error fault =>
      simp only [hresult] at h
      cases h
    | ok x =>
      simp only [hresult] at h ⊢
      obtain ⟨hdue, htick, rfl⟩ | ⟨_, o, _, hdue, -, -, -, rfl, -⟩ := Machine.handleTick_eq_ok hresult
      · have hskip : (m :: rest).filter (·.isDue round.now) = rest.filter (·.isDue round.now) :=
          List.filter_cons_of_neg (by simp [Machine.isDue, hdue])
        rw [hskip]
        obtain ⟨passes, hround, hone⟩ := ih hreport h
        refine ⟨passes, ⟨hround.rules, hround.whole, ?_⟩, hone⟩
        rw [hround.trail, storeMachine_trail, htick]
      · have hkeep : (m :: rest).filter (·.isDue round.now) = m :: rest.filter (·.isDue round.now) :=
          List.filter_cons_of_pos (by simp [Machine.isDue, hdue])
        rw [hkeep, List.map_cons]
        obtain ⟨p, hevent, rfl, htime, hcompleted⟩ := Machine.completed_handleTick hresult
        obtain ⟨passes, hround, hone⟩ := ih (hreport.add hcompleted) h
        refine ⟨p :: passes, hround.cons hcompleted hevent htime, ?_⟩
        rwa [List.append_assoc, List.singleton_append] at hone

end

/-- The events that wait are drained one after the other, and with them those that join meanwhile, until none waits
any more. The loaded rules pass over each of them. -/
inductive Drains : World → List Pass → World → Prop where
  | done {w : World} (h : w.engine.pending = []) : Drains w [] w
  | next {w v w' : World} {e : Event} {rest : List Event} {passes later : List Pass}
      (hpending : w.engine.pending = e :: rest)
      (hafter : (processOne { w with engine := { w.engine with pending := rest } } e).1 = v)
      (hround : w.MakesRound (w.engine.book.machines.map (·.rule)) e w.platform.now passes v)
      (hlater : Drains v later w') : Drains w (passes ++ later) w'

section

variable {w w' : World} {passes earlier : List Pass} {report final : Report}

theorem Drains.pending (h : w.Drains passes w') : w'.engine.pending = [] := by
  induction h with
  | done h => exact h
  | next _ _ _ _ ih => exact ih

theorem Drains.whole (h : w.Drains passes w') : ∀ p ∈ passes, p.Whole := by
  induction h with
  | done => simp
  | next _ _ hround _ ih => exact List.forall_mem_append.mpr ⟨fun p hp => (hround.whole p hp).1, ih⟩

theorem Drains.trail (h : w.Drains passes w') : w'.trail = w.trail ++ passes.flatMap Pass.trail := by
  induction h with
  | done => simp
  | next _ _ hround _ ih => rw [ih, hround.trail, List.flatMap_append, List.append_assoc]

theorem drains_drain (fuel : Nat) (hreport : report.Accounts earlier)
    (h : (drain fuel w report).2 = .returned final) :
    ∃ passes, w.Drains passes (drain fuel w report).1 ∧ final.Accounts (earlier ++ passes) := by
  induction fuel generalizing w report earlier with
  | zero => cases h
  | succ fuel ih =>
    cases hpending : w.engine.pending with
    | nil =>
      rw [drain_of_empty fuel report hpending] at h ⊢
      cases h
      exact ⟨[], .done hpending, by rwa [List.append_nil]⟩
    | cons e rest =>
      rw [drain_of_cons fuel report hpending] at h ⊢
      cases hresult : (processOne { w with engine := { w.engine with pending := rest } } e).2 with
      | error fault =>
        simp only [hresult] at h
        cases h
      | ok one =>
        simp only [hresult] at h ⊢
        obtain ⟨passes, hround, hone⟩ := makesRound_passAll Report.accounts_empty hresult
        obtain ⟨later, hdrains, hfinal⟩ := ih (hreport.merge hone) h
        refine ⟨passes ++ later, .next hpending rfl ⟨hround.rules, hround.whole, hround.trail⟩ hdrains, ?_⟩
        rwa [List.nil_append, List.append_assoc] at hfinal

/-- What a call leaves that has ended with a report: the passes that the report accounts for are all that it has made,
no event waits any more, and nobody else has been told of them. -/
structure Accounted (w : World) (passes : List Pass) (w' : World) (report : Report) : Prop where
  report : report.Accounts passes
  whole : ∀ p ∈ passes, p.Whole
  trail : w'.trail = w.trail ++ passes.flatMap Pass.trail
  drained : w'.engine.pending = []
  untold : w.Untold w'

theorem accounted_processEvent (hidle : w.engine.draining = false) (fuel : Nat) {e : Event}
    (h : (w.processEvent fuel e).2 = .returned report) : ∃ passes v,
      Drains (World.setDraining { w with engine := w.engine.enqueue e } true) passes v ∧
      (w.processEvent fuel e).1 = v.setDraining false ∧ w.Accounted passes (w.processEvent fuel e).1 report := by
  have huntold := (((Untold.refl w).enqueue e).setDraining true).drain fuel {}
  rw [processEvent_of_idle fuel e hidle] at h ⊢
  obtain ⟨passes, hdrains, hreport⟩ := drains_drain fuel Report.accounts_empty h
  exact ⟨passes, _, hdrains, rfl, hreport, hdrains.whole, hdrains.trail, hdrains.pending, huntold.setDraining false⟩

theorem accounted_tick (hidle : w.engine.draining = false) (fuel : Nat) {now : Option Moment}
    (h : (w.tick fuel now).2 = .returned report) :
    let time := now.getD w.platform.now
    let due := w.engine.book.machines.filter (·.isDue time)
    let ticked := (tickAll (w.tickRound now) 0 w.engine.book.machines (w.setDraining true) {}).1
    ∃ passes later v, (w.setDraining true).MakesRound (due.map (·.rule)) (.tick time) time passes ticked ∧
      ticked.Drains later v ∧ (w.tick fuel now).1 = v.setDraining false ∧
      w.Accounted (passes ++ later) (w.tick fuel now).1 report := by
  intro time due ticked
  have huntold : w.Untold ticked := ((Untold.refl w).setDraining true).tickAll now
  rw [tick_of_idle fuel now hidle] at h ⊢
  cases hresult : (tickAll ((w.setDraining true).tickRound now) 0 (w.setDraining true).engine.book.machines
      (w.setDraining true) {}).2 with
  | error fault =>
    simp only [hresult] at h
    cases h
  | ok one =>
    simp only [hresult] at h ⊢
    obtain ⟨passes, hround, hone⟩ := makesRound_tickAll Report.accounts_empty hresult
    obtain ⟨later, hdrains, hreport⟩ := drains_drain fuel hone h
    refine ⟨passes, later, _, hround, hdrains, rfl, ?_⟩
    have hwhole := List.forall_mem_append.mpr ⟨fun p hp => (hround.whole p hp).1, hdrains.whole⟩
    have htrail := hdrains.trail
    rw [hround.trail, List.append_assoc, ← List.flatMap_append] at htrail
    exact ⟨hreport, hwhole, htrail, hdrains.pending, (huntold.drain fuel one).setDraining false⟩

/-- Reports account for every pass once. Whatever has been called and loaded before, a call of the engine that returns
a report has made these passes and no others: for an event, one pass of each loaded rule for each event that was drained
from the queue; for a tick, first one pass of each rule for which a periodic event is due. The report counts them, those
that fired, and the actions of these, and has the errors of those that failed. While the engine is at work, a call adds
its event to the queue and has an empty report. -/
theorem report_accounts_for_passes {start : World} (hidle : start.engine.draining = false) (fuel : Nat)
    (earlier : List Move) :
    let w := (start.moves fuel earlier).1
    (∀ e report, (w.processEvent fuel e).2 = .returned report → ∃ passes v,
      Drains (World.setDraining { w with engine := w.engine.enqueue e } true) passes v ∧
      (w.processEvent fuel e).1 = v.setDraining false ∧ w.Accounted passes (w.processEvent fuel e).1 report) ∧
    (∀ now report, (w.tick fuel now).2 = .returned report →
      let time := now.getD w.platform.now
      let due := w.engine.book.machines.filter (·.isDue time)
      let ticked := (tickAll (w.tickRound now) 0 w.engine.book.machines (w.setDraining true) {}).1
      ∃ passes later v, (w.setDraining true).MakesRound (due.map (·.rule)) (.tick time) time passes ticked ∧
        ticked.Drains later v ∧ (w.tick fuel now).1 = v.setDraining false ∧
        w.Accounted (passes ++ later) (w.tick fuel now).1 report) ∧
    ∀ v : World, v.engine.draining = true →
      (∀ e, v.processEvent fuel e = ({ v with engine := v.engine.enqueue e }, .returned {})) ∧
      ∀ now, v.tick fuel now = (v, .returned {}) := by
  intro w
  have hw : w.engine.draining = false := (draining_moves fuel earlier).trans hidle
  refine ⟨fun e report h => accounted_processEvent hw fuel h, fun now report h => accounted_tick hw fuel h,
    fun v hbusy => ⟨fun e => ?_, fun now => ?_⟩⟩
  · rw [processEvent, if_pos (by simpa [Engine.enqueue] using hbusy)]
  · rw [tick, if_pos hbusy]

end

/-- A rule that strikes once an hour and at every event, submits an event and then fails, and one that listens to a
device which does not exist. -/
def striking : RuleSet :=
  { rules := [
      { name := .text "strike", triggers := [.all []], periodic := [.every (.ofSeconds 3600)]
        actions := [.process (none, .command, .absent, .absent, "strike"), .fail "stuck"] },
      { name := .text "lost", triggers := [.device { target := .text "nowhere", kind := .receivesUpdate }] }] }

def unwound : World := { platform := { now := ⟨0, none⟩ } }

def wound : World := (unwound.moves 5 [.load striking none]).1

def knock : Event := { ref := none, kind := .command, time := ⟨0, none⟩ }

def hourLater : Moment := ⟨3600000000, none⟩

def unheard : String := "lost: Cannot resolve 'nowhere': not_found"

def figures (r : Report) : Int × Int × Int × List String := (r.evaluated, r.triggered, r.actions, r.errors)

/-- An event comes, or an hour has passed: the first rule fires. On the event that it submits it does not fire again,
since its cooldown is not over, and the second rule fails each time. -/
theorem report_accounts_for_passes_striking :
    unwound.engine.draining = false ∧
    (∃ report passes, (wound.processEvent 5 knock).2 = .returned report ∧
      figures report = (4, 1, 2, [unheard, unheard]) ∧ wound.Accounted passes (wound.processEvent 5 knock).1 report) ∧
    ∃ report passes later, (wound.tick 5 (some hourLater)).2 = .returned report ∧
      figures report = (3, 1, 2, [unheard]) ∧ passes.map (·.rule.name.asText) = ["strike"] ∧
      wound.Accounted (passes ++ later) (wound.tick 5 (some hourLater)).1 report := by
  have hevent : (wound.processEvent 5 knock).2.answer?.map figures = some (4, 1, 2, [unheard, unheard]) := by
    decide +kernel
  have htick : (wound.tick 5 (some hourLater)).2.answer?.map figures = some (3, 1, 2, [unheard]) := by decide +kernel
  have hdue : (wound.engine.book.machines.filter (·.isDue hourLater)).map (·.rule.name.asText) = ["strike"] := by
    decide +kernel
  have hidle : unwound.engine.draining = false := rfl
  obtain ⟨hprocess, hticked, -⟩ := report_accounts_for_passes hidle 5 [.load striking none]
  rw [← wound] at hprocess hticked
  obtain ⟨report, hreport, hfigures⟩ := Option.map_eq_some_iff.mp hevent
  obtain ⟨report', hreport', hfigures'⟩ := Option.map_eq_some_iff.mp htick
  have hreturned := Ending.returned_of_answer hreport
  have hreturned' := Ending.returned_of_answer hreport'
  obtain ⟨passes, -, -, -, haccounted⟩ := hprocess knock report hreturned
  obtain ⟨ticked, later, -, hround, -, -, haccounted'⟩ := hticked (some hourLater) report' hreturned'
  have hnames : ticked.map (·.rule.name.asText) = ["strike"] := by
    have hrules := congrArg (List.map fun r : Rule => r.name.asText) hround.rules
    rw [List.map_map, List.map_map] at hrules
    exact hrules.trans hdue
  exact ⟨hidle, ⟨report, passes, hreturned, hfigures, haccounted⟩,
    report', ticked, later, hreturned', hfigures', hnames, haccounted'⟩

end World
end Domotics
