import Domotics.Proofs.Run.Answerable
import Domotics.Proofs.Run.Orderly
import Domotics.Proofs.Run.Steps

/-!
Calls that do not fail. In a world whose rules always answer, every event that the engine takes from the line is
passed over by all rules in order, and each of them comes to an outcome that hides no fault, whatever became of the
rules before it. Calls from outside keep such a world as it is.
-/

namespace Domotics.World

open Turn

/-- The rule that a round has come to is the one that stands at this place, under its aliases, unless others have been
loaded since the round began. -/
def AtPlace (w : World) (round : Round) (index : Nat) (m : Machine) : Prop :=
  w.engine.generation = round.generation →
    w.engine.book.aliases = round.aliases ∧ w.engine.book.machines[index]? = some m

/-- Events are taken from the line, the engine starts and stops, and rules pass over events at the present, each in the
world that was left to it, with outcomes that hide no fault. -/
inductive Passing (rs : RuleSet) : World → List Outcome → World → Prop where
  | nil (w : World) : Passing rs w [] w
  | line {w w' : World} {outs : List Outcome} (pending : List Event) (draining : Bool)
      (later : Passing rs { w with engine := { w.engine with pending, draining } } outs w') : Passing rs w outs w'
  | pass {w w' : World} {outs : List Outcome} {m : Machine} {o : Outcome} (round : Round) (index : Nat)
      (hrule : m.rule ∈ rs.rules) (hplace : w.AtPlace round index m) (hnow : round.now = w.platform.now)
      (hresult : (m.handle round.aliases w o.event round.now).result = .ok o)
      (hreveals : (m.noting o.event).Reveals (m.facing round.aliases w o.event round.now) o.judgement)
      (later : Passing rs ((m.handle round.aliases w o.event round.now).world.storeMachine round.generation index
        (m.handle round.aliases w o.event round.now).machine) outs w') : Passing rs w (o :: outs) w'

theorem Passing.append {rs : RuleSet} {w w' w'' : World} {outs later : List Outcome} (h₁ : Passing rs w outs w')
    (h₂ : Passing rs w' later w'') : Passing rs w (outs ++ later) w'' := by
  induction h₁ with
  | nil => exact h₂
  | line pending draining _ ih => exact .line pending draining (ih h₂)
  | pass round index hrule hplace hnow hresult hreveals _ ih =>
    exact .pass round index hrule hplace hnow hresult hreveals (ih h₂)

section

variable {rs : RuleSet} {offset : Option Int} {now : Moment} {w : World} {m : Machine} {rest machines : List Machine}
  {round : Round} {index : Nat}

theorem Answerable.queue (h : w.Answerable rs offset) (pending : List Event) (draining : Bool) :
    Answerable rs offset { w with engine := { w.engine with pending, draining } } :=
  ⟨h.platform, h.lastRuleSet, h.names, h.aliases, h.machines⟩

theorem Answerable.store {w' : World} {plain : Prop} {added : List Happening} {generation : Nat}
    (h : w'.Answerable rs offset) (hm : m.Answerable rs offset) {m' : Machine}
    (hahead : w.Ahead generation index (m' :: rest)) (hle : generation ≤ w.engine.generation)
    (hacts : w.Acts plain w' added) (hrule : m.rule = m'.rule) :
    (w'.storeMachine generation index m).Answerable rs offset where
  platform := h.platform
  lastRuleSet := h.lastRuleSet
  names := (ruleNames_store hahead hle hacts hrule).trans h.names
  aliases := by
    rw [storeMachine, Engine.store]
    split <;> exact h.aliases
  machines := forall_mem_storeMachine h.machines hm generation index

theorem AnswerableAt.turn (hrs : rs.Answerable) (h : w.AnswerableAt rs offset now) (hm : m.Answerable rs offset)
    (haliases : round.aliases.Searchable) (hnow : round.now = now) (e : Event)
    (hle : round.generation ≤ w.engine.generation) (hahead : w.Ahead round.generation index (m :: rest)) :
    AnswerableAt rs offset now ((m.handle round.aliases w e round.now).world.storeMachine round.generation index
      (m.handle round.aliases w e round.now).machine) := by
  obtain ⟨inner, hacts, -⟩ := m.acts_handle round.aliases w e round.now
  have hrule := (m.passed_handle round.aliases w e round.now).rule
  have hactions := Action.allLoadOnly_true m.rule.actions
  have hworld := (passLaw_answerable hrs).handle hactions round.aliases e round.now h
  have hmachine : (m.handle round.aliases w e round.now).machine.Answerable rs offset := by
    rw [hnow, ← h.2]
    exact (hm.handle hrs haliases h.1.platform e).1
  exact ⟨hworld.1.store hmachine hahead hle hacts hrule, hworld.2⟩

theorem aliases_store {w' : World} {plain : Prop} {added : List Happening} (m' : Machine)
    (haliases : w.engine.generation = round.generation → w.engine.book.aliases = round.aliases)
    (hle : round.generation ≤ w.engine.generation) (hacts : w.Acts plain w' added)
    (hsame : (w'.storeMachine round.generation index m').engine.generation = round.generation) :
    (w'.storeMachine round.generation index m').engine.book.aliases = round.aliases := by
  rw [storeMachine_generation] at hsame
  have hmono := hacts.generation
  rw [storeMachine_of_generation index m' hsame]
  dsimp only
  rw [hacts.book (by omega)]
  exact haliases (by omega)

/-- A round of such rules breaks nowhere, and each of them comes to an outcome. -/
theorem AnswerableAt.passAll (round : Round) (hrs : rs.Answerable) (h : w.AnswerableAt rs offset now)
    (haliases : round.aliases.Searchable) (hnow : round.now = now) (e : Event)
    (hle : round.generation ≤ w.engine.generation) (hahead : w.Ahead round.generation index machines)
    (hbook : w.engine.generation = round.generation → w.engine.book.aliases = round.aliases)
    (hmachines : ∀ m ∈ machines, m.Answerable rs offset) (report : Report) :
    AnswerableAt rs offset now (World.passAll round e index machines w report).1 ∧ ∃ outs one,
      (World.passAll round e index machines w report).2 = .ok one ∧ one.outcomes = report.outcomes ++ outs ∧
      outs.map (fun o => (o.rule, o.event)) = machines.map (fun m => (m.rule.name, e)) ∧
      Passing rs w outs (World.passAll round e index machines w report).1 := by
  induction machines generalizing index w report with
  | nil => exact ⟨h, [], report, rfl, (List.append_nil _).symm, rfl, .nil w⟩
  | cons m rest ih =>
    obtain ⟨hm, hrest⟩ := List.forall_mem_cons.mp hmachines
    obtain ⟨inner, hacts, -⟩ := m.acts_handle round.aliases w e round.now
    have hmono := hacts.generation
    have hturn := h.turn hrs hm haliases hnow e hle hahead
    obtain ⟨-, j, hresult, -, hreveals⟩ := hm.handle hrs haliases h.1.platform e
    rw [h.2, ← hnow] at hresult hreveals
    obtain ⟨hworld, outs, one, hone, houtcomes, hlabels, hpassing⟩ := ih hturn
      (by rw [storeMachine_generation]; omega)
      (hahead.store hle hacts (m.handle round.aliases w e round.now).machine)
      (aliases_store (m.handle round.aliases w e round.now).machine hbook hle hacts) hrest
      (report.add ⟨m.rule.name, round.now, e, j⟩ m.rule.actions.length)
    rw [World.passAll, hresult]
    refine ⟨hworld, ⟨m.rule.name, round.now, e, j⟩ :: outs, one, hone, ?_, ?_,
      .pass round index hm.rule (fun hsame => ⟨hbook hsame, hahead.getElem?_eq hsame⟩) (hnow.trans h.2.symm) hresult
        hreveals hpassing⟩
    · rw [houtcomes, Report.add, List.append_assoc, List.singleton_append]
    · rw [List.map_cons, List.map_cons, hlabels]

theorem AnswerableAt.processOne (hrs : rs.Answerable) (h : w.AnswerableAt rs offset now) (e : Event) :
    AnswerableAt rs offset now (w.processOne e).1 ∧ ∃ one, (w.processOne e).2 = .ok one ∧
      one.outcomes.map (fun o => (o.rule, o.event)) = dueOf rs.rules [e] ∧
      Passing rs w one.outcomes (w.processOne e).1 := by
  obtain ⟨hworld, outs, one, hone, houtcomes, hlabels, hpassing⟩ :=
    h.passAll ⟨w.engine.book.aliases, w.engine.generation, w.platform.now⟩ hrs h.1.aliases h.2 e
      (Nat.le_refl _) (fun _ => List.drop_zero) (fun _ => rfl) h.1.machines {}
  obtain rfl : one.outcomes = outs := houtcomes
  have hnames : w.engine.book.machines.map (·.rule.name) = rs.rules.map (·.name) := h.1.names
  refine ⟨hworld, one, hone, ?_, hpassing⟩
  have hpairs := congrArg (List.map fun name => (name, e)) hnames
  rw [hlabels, dueOf, List.flatMap_singleton]
  simpa [Function.comp_def] using hpairs

/-- How the engine copes with what waits for the rules. No pass breaks; each rule comes to one outcome for each event
that it is handed; and the engine stops when no event waits, or when it has handed over as many as it was given. -/
structure Copes (rs : RuleSet) (before : List Outcome) (count : Nat) (w : World) (turns : List Turn)
    (outs : List Outcome) (out : World × Ending Report) : Prop where
  rounds : Rounds turns
  works : w.Works turns out
  passing : Passing rs w outs out.1
  each : outs.map (fun o => (o.rule, o.event)) = dueOf rs.rules (handedIn turns)
  ending : (∃ report, out.2 = .returned report ∧ report.outcomes = before ++ outs) ∨
    out.2 = .unsettled ∧ (handedIn turns).length = count

theorem AnswerableAt.drain (hrs : rs.Answerable) (h : w.AnswerableAt rs offset now) (count : Nat) (report : Report) :
    AnswerableAt rs offset now (World.drain count w report).1 ∧ ∃ turns outs,
      Copes rs report.outcomes count w turns outs (World.drain count w report) := by
  induction count generalizing w report with
  | zero =>
    exact ⟨h, [], [], .nil, ⟨.of (.refl w), rfl, by simp [World.drain]⟩, .nil w, rfl, .inr ⟨rfl, rfl⟩⟩
  | succ count ih =>
    cases hpending : w.engine.pending with
    | nil =>
      rw [drain_of_empty count report hpending]
      exact ⟨h, [], [], .nil, ⟨.of (.refl w), rfl, fun _ _ => hpending⟩, .nil w, rfl,
        .inl ⟨report, rfl, (List.append_nil _).symm⟩⟩
    | cons e later =>
      let start : World := { w with engine := { w.engine with pending := later } }
      have hstart : start.AnswerableAt rs offset now := ⟨h.1.queue later w.engine.draining, h.2⟩
      obtain ⟨hnext, one, hone, hlabels, hpassing⟩ := hstart.processOne hrs e
      obtain ⟨ends, inner, hinner, hproceeds, hfaults⟩ := proceeds_processOne hpending
      obtain ⟨hworld, turns, outs, hcopes⟩ := ih hnext (report.merge one)
      have hhanded : handedIn (.handed e ends :: inner ++ turns) = e :: handedIn turns := by
        rw [List.cons_append, handedIn_cons, handedIn_append, handedIn_of_isInner hinner]
        rfl
      rw [drain_of_cons count report hpending]
      simp only [start] at hone
      simp only [hone]
      refine ⟨hworld, .handed e ends :: inner ++ turns, one.outcomes ++ outs, .cons e ends hinner hcopes.rounds,
        ⟨hproceeds.trans hcopes.works.proceeds, ?_, hcopes.works.done⟩,
        .line later w.engine.draining (hpassing.append hcopes.passing), ?_, ?_⟩
      · rw [faultsIn_append, hfaults, hone, hcopes.works.faults]
        rfl
      · rw [List.map_append, hlabels, hcopes.each, hhanded, ← dueOf_append]
        rfl
      · rcases hcopes.ending with ⟨all, hall, houtcomes⟩ | ⟨hunsettled, hlength⟩
        · exact .inl ⟨all, hall, by rw [houtcomes, Report.merge, List.append_assoc]⟩
        · exact .inr ⟨hunsettled, by rw [hhanded, List.length_cons, hlength]⟩

/-- The engine and the bus keep such a world. -/
theorem law_answerable (hrs : rs.Answerable) : Law (Answerable rs offset) where
  bus _ h := ⟨h.platform, h.lastRuleSet, h.names, h.aliases, h.machines⟩
  queue pending draining h := h.queue pending draining
  report _ h := ⟨h.platform, h.lastRuleSet, h.names, h.aliases, h.machines⟩
  processOne e h := (AnswerableAt.processOne hrs ⟨h, rfl⟩ e).1.1

theorem handleTick_of_answerable (hm : m.Answerable rs offset) (aliases : AliasRegistry) (w : World) (now : Moment) :
    m.handleTick aliases w now = ⟨m, w, .ok none⟩ := by
  rw [Machine.handleTick, Retrigger.due_of_nextTick_eq_none hm.timer.nextTick now]

theorem Answerable.tick (hrs : rs.Answerable) (h : w.Answerable rs offset) (fuel : Nat) (time : Option Moment) :
    (w.tick fuel time).1.Answerable rs offset := by
  have law : Law (Answerable rs offset) := law_answerable hrs
  refine law.feed.tick fuel time h ?_
  refine tickAll_keeps (fun {v index m rest} hm hv hle hahead => ?_) (law.queue _ _ h) (Nat.le_refl _)
    fun _ => List.drop_zero
  have hanswers := h.machines m hm
  rw [handleTick_of_answerable hanswers]
  exact hv.store hanswers hahead hle (.refl v : Acts True v v []) rfl

theorem Answerable.noted (h : w.Answerable rs offset) {done : Platform × Event} (hnow : done.1.now = w.platform.now)
    (hsolar : done.1.solar = w.platform.solar) : (w.noted done).Answerable rs offset := by
  have hsuits : done.1.Suits rs offset := ⟨hnow ▸ h.platform.offset, by rw [hnow, hsolar]; exact h.platform.admits⟩
  rw [World.noted]
  split <;> exact ⟨hsuits, h.lastRuleSet, h.names, h.aliases, h.machines⟩

def Call.Suits (rs : RuleSet) (offset : Option Int) : Call → Prop
  | adjust p => p.Suits rs offset
  | _ => True

theorem Answerable.perform (hrs : rs.Answerable) (h : w.Answerable rs offset) (fuel : Nat) {c : Call}
    (hc : c.Suits rs offset) : (w.perform fuel c).1.Answerable rs offset := by
  have law : Law (Answerable rs offset) := law_answerable hrs
  cases c with
  | event e => exact law.feed.processEvent fuel trivial h
  | publish e =>
    exact law.feed.publishOnBus fuel e ⟨h.platform, h.lastRuleSet, h.names, h.aliases, h.machines⟩
  | update r v source => exact law.feed.updateState fuel r v source (h.noted rfl rfl)
  | command r v source => exact law.feed.sendCommand fuel r v source (h.noted rfl rfl) fun h => h.noted rfl rfl
  | tick time => exact h.tick hrs fuel time
  | adjust p => exact ⟨⟨hc.offset, hc.admits⟩, h.lastRuleSet, h.names, h.aliases, h.machines⟩

theorem Answerable.run (hrs : rs.Answerable) (h : w.Answerable rs offset) (fuel : Nat) {calls : List Call}
    (hcalls : ∀ c ∈ calls, c.Suits rs offset) : (w.run fuel calls).Answerable rs offset := by
  induction calls generalizing w with
  | nil => exact h
  | cons c rest ih =>
    obtain ⟨hc, hrest⟩ := List.forall_mem_cons.mp hcalls
    exact ih (h.perform hrs fuel hc) hrest

theorem Answerable.processEvent (hrs : rs.Answerable) (h : w.Answerable rs offset)
    (hidle : w.engine.draining = false) (count : Nat) (e : Event) : ∃ turns outs, Rounds turns ∧
      w.Works (.joined e false :: turns) (w.processEvent count e) ∧ Passing rs w outs (w.processEvent count e).1 ∧
      outs.map (fun o => (o.rule, o.event)) = dueOf rs.rules (handedIn turns) ∧
      ((∃ report, (w.processEvent count e).2 = .returned report ∧ report.outcomes = outs) ∨
        (w.processEvent count e).2 = .unsettled ∧ (handedIn turns).length = count) := by
  let joined : World := { w with engine := w.engine.enqueue e }
  let start := joined.setDraining true
  have hstart : start.Answerable rs offset := h.queue (w.engine.pending ++ [e]) true
  obtain ⟨-, turns, outs, hcopes⟩ := AnswerableAt.drain hrs ⟨hstart, rfl⟩ count {}
  have hjoined : w.Proceeds [.joined e false] joined := ⟨[], .joined w e, rfl⟩
  have hproceeds := (hjoined.trans (.setDraining joined true)).trans
    (hcopes.works.proceeds.trans (.setDraining _ false))
  have hstops (v : World) : Passing rs v [] (v.setDraining false) := .line v.engine.pending false (.nil _)
  have hpassing := hcopes.passing.append (hstops _)
  rw [List.append_nil] at hpassing
  rw [processEvent_of_idle count e hidle]
  exact ⟨turns, outs, hcopes.rounds, ⟨by simpa using hproceeds, hcopes.works.faults, hcopes.works.done⟩,
    .line start.engine.pending true hpassing, hcopes.each, hcopes.ending⟩

end

end Domotics.World
