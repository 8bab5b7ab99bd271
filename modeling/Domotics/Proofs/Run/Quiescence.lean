import Domotics.Proofs.Run.Still
import Domotics.Proofs.Run.Unfailing

/-!
Rules that come to rest. When no rule loads rules, and each has a cooldown or does nothing that rules take notice of,
the events that the rules cause run out: with every event that is handed over, either nothing joins the line, or one
more rule has begun to rest. So a call of the engine for an event returns, and one bad rule does not take the others
down.
-/

namespace Domotics

open Result Turn

/-- Rules that come to rest: none of them loads rules, and one whose actions do not keep still has a cooldown. -/
structure RuleSet.Calm (rs : RuleSet) : Prop where
  loads : ∀ r ∈ rs.rules, Action.AllLoadOnly (fun _ => False) r.actions
  rests : ∀ r ∈ rs.rules, .zero < r.cooldown ∨ Action.allKeepStill r.actions = true

theorem Retrigger.mayFire_of_just_fired {r : Retrigger} {now : Moment} (h : r.lastFired = some now)
    (hcooldown : .zero < r.cooldown) : r.mayFire now = .ok false := by
  have hrests : ¬ r.cooldown ≤ ⟨now.ticks - now.ticks⟩ := by
    simpa only [Int.sub_self, Duration.le_def, Duration.lt_def, Duration.zero, Int.not_le] using hcooldown
  rw [mayFire, h]
  dsimp only
  rw [since_eq_ok rfl, ok_bind, pure_eq_ok, decide_eq_false hrests]

namespace Machine

/-- Whether a rule can still do something that rules take notice of: its cooldown is over, and its actions do not
keep still. -/
def lively (now : Moment) (m : Machine) : Bool :=
  !Action.allKeepStill m.rule.actions && (m.retrigger.mayFire now).toOption == some true

variable {m : Machine} {aliases : AliasRegistry} {w : World} {e : Event} {now : Moment}

theorem lively_of_keepStill (h : Action.allKeepStill m.rule.actions = true) : m.lively now = false := by
  simp [lively, h]

/-- A rule that fires has been lively and rests then, if it has a cooldown. -/
theorem lively_of_fires {j : Judgement} {retrigger : Retrigger} {solar : SolarCalendar} {planned : Result Unit}
    (hstirs : ¬ Action.allKeepStill m.rule.actions = true) (hcooldown : .zero < m.retrigger.cooldown)
    (hverdict : m.verdict aliases w e now = .ok j) (hfires : j.state = .firing)
    (hrecord : m.retrigger.recordFired now solar = (retrigger, planned)) :
    m.lively now = true ∧ lively now { m.noting e with retrigger, phase := .idle } = false := by
  have hmay : m.retrigger.mayFire now = .ok true := mayFire_of_judge hverdict hfires
  have hlast := m.retrigger.recordFired_lastFired now solar
  have hkeeps := m.retrigger.recordFired_cooldown now solar
  rw [hrecord] at hlast hkeeps
  have hrests := Retrigger.mayFire_of_just_fired hlast (hkeeps ▸ hcooldown)
  exact ⟨by simp [lively, hstirs, hmay, Except.toOption], by simp [lively, hrests, Except.toOption]⟩

/-- After a pass the rule has begun to rest, or it is as lively as before and nothing more waits for the rules. -/
theorem calms_handle (hrests : .zero < m.retrigger.cooldown ∨ Action.allKeepStill m.rule.actions = true)
    (hsame : (m.handle aliases w e now).world.engine.generation = w.engine.generation) :
    m.lively now = true ∧ (m.handle aliases w e now).machine.lively now = false ∨
      (m.handle aliases w e now).machine.lively now = m.lively now ∧
        (m.handle aliases w e now).world.engine.pending = w.engine.pending := by
  by_cases hstill : Action.allKeepStill m.rule.actions = true
  · have hrule := (m.passed_handle aliases w e now).rule
    refine .inr ⟨?_, (still_handle hstill aliases w e now).pending hsame⟩
    rw [lively_of_keepStill hstill, lively_of_keepStill (by rwa [hrule])]
  · have hcooldown := hrests.resolve_right hstill
    have hhandled := m.handled_handle aliases w e now
    generalize m.handle aliases w e now = pass at hhandled ⊢
    cases hhandled with
    | broke => exact .inr ⟨rfl, rfl⟩
    | rested => exact .inr ⟨rfl, rfl⟩
    | fired record hverdict hfires _ hrecord => exact .inl (lively_of_fires hstill hcooldown hverdict hfires hrecord)
    | unplanned hverdict hfires _ hrecord => exact .inl (lively_of_fires hstill hcooldown hverdict hfires hrecord)

end Machine

namespace World

def lively (now : Moment) (w : World) : Nat := w.engine.book.machines.countP (·.lively now)

/-- A rule less is lively, or just as many are and nothing more waits for them. The rules are the same. -/
structure Calms (now : Moment) (w w' : World) : Prop where
  generation : w'.engine.generation = w.engine.generation
  lively : w'.lively now < w.lively now ∨ w'.lively now = w.lively now ∧ w'.engine.pending = w.engine.pending

theorem Calms.refl (now : Moment) (w : World) : w.Calms now w := ⟨rfl, .inr ⟨rfl, rfl⟩⟩

theorem Calms.trans {now : Moment} {w w' w'' : World} (h₁ : w.Calms now w') (h₂ : w'.Calms now w'') :
    w.Calms now w'' where
  generation := h₂.generation.trans h₁.generation
  lively := by
    rcases h₁.lively with hfirst | ⟨hfirst, hpending⟩ <;> rcases h₂.lively with hlater | ⟨hlater, hpending'⟩
    · exact .inl (by omega)
    · exact .inl (by omega)
    · exact .inl (by omega)
    · exact .inr ⟨hlater.trans hfirst, hpending'.trans hpending⟩

theorem passLaw_generation (generation : Nat) : PassLaw (fun _ => False) (·.engine.generation = generation) :=
  passLaw_of_frame (fun _ hgeneration _ _ _ h => hgeneration.trans h) fun _ hnone => hnone.elim

section

variable {rs : RuleSet} {offset : Option Int} {now : Moment} {w : World} {m : Machine} {rest machines : List Machine}
  {round : Round} {index : Nat}

theorem lively_store {w' : World} {plain : Prop} {added : List Happening} (now : Moment) (m' : Machine)
    (hahead : w.Ahead w.engine.generation index (m :: rest)) (hacts : w.Acts plain w' added)
    (hsame : w'.engine.generation = w.engine.generation) :
    (w'.storeMachine w.engine.generation index m').lively now + (if m.lively now then 1 else 0) =
      w.lively now + (if m'.lively now then 1 else 0) := by
  obtain ⟨hlt, hm⟩ := List.getElem?_eq_some_iff.mp (hahead.getElem?_eq rfl)
  rw [lively, storeMachine_machines m' hsame, hacts.book hsame, List.countP_set hlt, hm, ← lively]
  cases hlively : m.lively now with
  | false => simp
  | true =>
    have hpos : 0 < w.lively now := List.countP_pos_iff.mpr ⟨m, hm ▸ List.getElem_mem hlt, hlively⟩
    simp only [if_true]
    omega

theorem calms_turn (hcalm : rs.Calm) (hm : m.Answerable rs offset) (e : Event)
    (hgeneration : w.engine.generation = round.generation) (hahead : w.Ahead round.generation index (m :: rest)) :
    w.Calms round.now ((m.handle round.aliases w e round.now).world.storeMachine round.generation index
      (m.handle round.aliases w e round.now).machine) := by
  obtain ⟨inner, hacts, -⟩ := m.acts_handle round.aliases w e round.now
  have hsame := (passLaw_generation w.engine.generation).handle (hcalm.loads m.rule hm.rule) round.aliases e round.now
    (rfl : w.engine.generation = _)
  rw [← hgeneration] at hahead ⊢
  have hcount := lively_store round.now (m.handle round.aliases w e round.now).machine hahead hacts hsame
  refine ⟨by rw [storeMachine_generation, hsame], ?_⟩
  rcases Machine.calms_handle (hm.cooldown ▸ hcalm.rests m.rule hm.rule) hsame with ⟨hwas, his⟩ | ⟨hlively, hpending⟩
  · rw [hwas, his] at hcount
    simp only [if_true, Bool.false_eq_true, if_false] at hcount
    exact .inl (by omega)
  · rw [hlively] at hcount
    exact .inr ⟨by omega, (storeMachine_pending ..).trans hpending⟩

theorem calms_passAll (round : Round) (hrs : rs.Answerable) (hcalm : rs.Calm) (h : w.AnswerableAt rs offset round.now)
    (haliases : round.aliases.Searchable) (e : Event) (hgeneration : w.engine.generation = round.generation)
    (hahead : w.Ahead round.generation index machines) (hmachines : ∀ m ∈ machines, m.Answerable rs offset)
    (report : Report) : w.Calms round.now (passAll round e index machines w report).1 := by
  induction machines generalizing index w report with
  | nil => exact .refl round.now w
  | cons m rest ih =>
    obtain ⟨hm, hrest⟩ := List.forall_mem_cons.mp hmachines
    obtain ⟨inner, hacts, -⟩ := m.acts_handle round.aliases w e round.now
    have hle : round.generation ≤ w.engine.generation := Nat.le_of_eq hgeneration.symm
    have hturn := calms_turn hcalm hm e hgeneration hahead
    have hnext := hahead.store hle hacts (m.handle round.aliases w e round.now).machine
    rw [passAll]
    split
    · have hstored := h.turn hrs hm haliases rfl e hle hahead
      exact hturn.trans (ih hstored (hturn.generation.trans hgeneration) hnext hrest _)
    · exact hturn

theorem calms_processOne (hrs : rs.Answerable) (hcalm : rs.Calm) (h : w.AnswerableAt rs offset now) (e : Event) :
    w.Calms now (w.processOne e).1 := by
  obtain ⟨hw, rfl⟩ := h
  exact calms_passAll ⟨w.engine.book.aliases, w.engine.generation, w.platform.now⟩ hrs hcalm ⟨hw, rfl⟩
    hw.aliases e rfl (fun _ => List.drop_zero) hw.machines {}

/-- The events that wait run out, by induction on the number of lively rules, and on the number of those events for as
long as no rule begins to rest. -/
theorem exists_drained (hrs : rs.Answerable) (hcalm : rs.Calm) {w : World} (h : w.AnswerableAt rs offset now) :
    ∃ enough, ∀ count, enough ≤ count → ∀ report, (drain count w report).2 ≠ .unsettled := by
  cases hpending : w.engine.pending with
  | nil =>
    refine ⟨1, fun count hcount report => ?_⟩
    obtain ⟨count, rfl⟩ := Nat.exists_eq_add_of_le' hcount
    simp [drain_of_empty count report hpending]
  | cons e later =>
    let start : World := { w with engine := { w.engine with pending := later } }
    have hstart : start.AnswerableAt rs offset now := ⟨h.1.queue later w.engine.draining, h.2⟩
    obtain ⟨hnext, one, hone, -⟩ := hstart.processOne hrs e
    have hcalms := (calms_processOne hrs hcalm hstart e).lively
    obtain ⟨enough, henough⟩ := exists_drained hrs hcalm hnext
    refine ⟨enough + 1, fun count hcount report => ?_⟩
    obtain ⟨count, rfl⟩ := Nat.exists_eq_add_of_le' (Nat.le_of_add_left_le hcount)
    rw [drain_of_cons count report hpending]
    simp only [start] at hone
    simp only [hone]
    exact henough count (by omega) _
termination_by (w.lively now, w.engine.pending.length)
decreasing_by
  rcases hcalms with hlt | ⟨heq, hsame⟩
  · exact Prod.Lex.left _ _ hlt
  · rw [heq, hsame, hpending]
    exact Prod.Lex.right _ (Nat.lt_succ_self _)

/-- So a call of the engine for an event returns, if it is given enough events to hand over. -/
theorem Answerable.returns (hrs : rs.Answerable) (hcalm : rs.Calm) (h : w.Answerable rs offset)
    (hidle : w.engine.draining = false) (e : Event) :
    ∃ enough, ∀ count, enough ≤ count → ∃ report, (w.processEvent count e).2 = .returned report := by
  let start : World := setDraining { w with engine := w.engine.enqueue e } true
  have hstart : start.AnswerableAt rs offset w.platform.now := ⟨h.queue (w.engine.pending ++ [e]) true, rfl⟩
  obtain ⟨enough, henough⟩ := exists_drained hrs hcalm hstart
  refine ⟨enough, fun count hcount => ?_⟩
  obtain ⟨turns, outs, -, -, -, -, hending⟩ := h.processEvent hrs hidle count e
  rcases hending with ⟨report, hreturned, -⟩ | ⟨hunsettled, -⟩
  · exact ⟨report, hreturned⟩
  · rw [processEvent_of_idle count e hidle] at hunsettled
    exact absurd hunsettled (henough count hcount {})

/-- Rules that always answer do not take each other down. However they have been loaded and calls have gone on since,
a call of the engine for an event raises nothing. It hands over the events that wait, then this one and those that are
caused meanwhile, in order, unless rules are loaded; each rule comes to one outcome for each of them, which shows the
fault that kept its predicates from being evaluated; and these make up the report. The call returns, unless there is
no end to the events that the rules cause; and there is one if no rule loads rules and each that does more than count
and notify has a cooldown. -/
theorem every_rule_answers {w₀ : World} {time : Option Moment} (hrs : rs.Answerable)
    (hsuits : w₀.platform.Suits rs offset) (hidle : w₀.engine.draining = false)
    (hload : w₀.load rs time = (w, .ok ())) (fuel : Nat) {calls : List Call}
    (hcalls : ∀ c ∈ calls, c.Suits rs offset) (e : Event) :
    let v := w.run fuel calls
    (∀ count, ∃ turns outs,
      let out := v.processEvent count e
      Rounds turns ∧ v.Works (.joined e false :: turns) out ∧
      (out.1.engine.generation = v.engine.generation →
        handedIn turns ++ out.1.engine.pending = v.engine.pending ++ e :: joinedIn turns) ∧
      Passing rs v outs out.1 ∧ outs.map (fun o => (o.rule, o.event)) = dueOf rs.rules (handedIn turns) ∧
      ((∃ report, out.2 = .returned report ∧ report.outcomes = outs) ∨
        out.2 = .unsettled ∧ (handedIn turns).length = count)) ∧
    (rs.Calm → ∃ enough, ∀ count, enough ≤ count → ∃ report, (v.processEvent count e).2 = .returned report) := by
  intro v
  have hloaded : w.Answerable rs offset := by
    rcases answerable_of_load time hrs hsuits with ⟨fault, hfails⟩ | hanswerable
    · rw [hload] at hfails
      cases hfails
    · rwa [hload] at hanswerable
  have hdraining : v.engine.draining = false := by
    obtain ⟨book, -, rfl⟩ := load_eq_ok hload
    exact (draining_run fuel calls).trans hidle
  have hv : v.Answerable rs offset := hloaded.run hrs fuel hcalls
  refine ⟨fun count => ?_, fun hcalm => hv.returns hrs hcalm hdraining e⟩
  obtain ⟨turns, outs, hrounds, hworks, hpassing, heach, hending⟩ := hv.processEvent hrs hdraining count e
  refine ⟨turns, outs, hrounds, hworks, fun hsame => ?_, hpassing, heach, hending⟩
  obtain ⟨added, hshifts, hended⟩ := hworks.proceeds
  exact (hshifts.flows hended).inOrder hsame

end

def afternoon : Moment := .onDay 739256 (57600 * Duration.perSecond) (some 0)

def terrace (now : Moment) : World :=
  { platform := { now, catalog := { items := ["lamp", "bell"].map fun name => { name, accepts := [.onOff] } } } }

def terraceUpdate (name : String) : Event :=
  { ref := some ⟨.item, name⟩, kind := .update, new := .onOff .on, time := afternoon }

def comesFrom (target : Document) : Expression := .device { target, kind := .receivesUpdate }

/-- A rule that looks for a device that there is not, one that rings the bell when something comes from the lamp in
the afternoon, and one that counts what comes from the bell. -/
def terraceRules : RuleSet :=
  { rules := [
      { name := .text "lost", triggers := [comesFrom (.text "door")] },
      { name := .text "ring", triggers := [comesFrom (.text "lamp")]
        schedule := { enabled := [⟨.full, [⟨.atClock { hour := 12, minute := 0 }, .midnight⟩]⟩] }
        actions := [.process (some ⟨.item, "bell"⟩, .update, .onOff .on, .absent, "ring")] },
      { name := .text "count", triggers := [comesFrom (.text "bell")], cooldown := .zero
        actions := [.counter (.text "terrace") (.text "rings")] }] }

def terraceCalls : List Call :=
  [.event (terraceUpdate "lamp"), .adjust (terrace (afternoon.plus (.ofSeconds 10))).platform]

theorem every_rule_answers_terrace :
    let v := ((terrace afternoon).load terraceRules none).1.run 5 terraceCalls
    let out := v.processEvent 5 (terraceUpdate "lamp")
    terraceRules.Answerable ∧ terraceRules.Calm ∧ (terrace afternoon).platform.Suits terraceRules (some 0) ∧
    (∀ c ∈ terraceCalls, c.Suits terraceRules (some 0)) ∧
    (∃ report, out.2 = .returned report) ∧
    (Happening.outcomesOf (.text "lost") out.1.trail).map (·.judgement.state) = List.replicate 4 .errored ∧
    (Happening.outcomesOf (.text "ring") out.1.trail).map (·.judgement.state) =
      [.firing, .suppressed, .firing, .suppressed] ∧
    (∃ turns outs, v.Works (.joined (terraceUpdate "lamp") false :: turns) out ∧ Passing terraceRules v outs out.1 ∧
      outs.map (fun o => (o.rule, o.event)) = dueOf terraceRules.rules (handedIn turns)) ∧
    ∃ enough, ∀ count, enough ≤ count → ∃ report,
      (v.processEvent count (terraceUpdate "lamp")).2 = .returned report := by
  intro v out
  have hrs : terraceRules.Answerable := by
    refine ⟨by decide +kernel, ?_, by simp [terraceRules, RuleSet.bindings], ?_⟩
    · simp [terraceRules, Rule.predicates, Expression.predicatesOf, Expression.predicates, comesFrom]
    · simp only [terraceRules, List.forall_mem_cons, Duration.Representable]
      decide +kernel
  have hcalm : terraceRules.Calm := by
    refine ⟨by simp [terraceRules, Action.AllLoadOnly, Action.LoadsOnly], ?_⟩
    simp only [terraceRules, List.forall_mem_cons]
    decide +kernel
  have hsuits (now : Moment) (hnow : now = afternoon ∨ now = afternoon.plus (.ofSeconds 10)) :
      (terrace now).platform.Suits terraceRules (some 0) := by
    rcases hnow with rfl | rfl <;>
      exact ⟨rfl, by decide +kernel, by decide +kernel, fun a => by cases a <;> rfl, by decide +kernel⟩
  have hcalls : ∀ c ∈ terraceCalls, c.Suits terraceRules (some 0) := by
    simp [terraceCalls, Call.Suits, hsuits]
  have hload : (terrace afternoon).load terraceRules none =
      (((terrace afternoon).load terraceRules none).1, .ok ()) := rfl
  obtain ⟨hanswers, hreturns⟩ :=
    every_rule_answers hrs (hsuits afternoon (.inl rfl)) rfl hload 5 hcalls (terraceUpdate "lamp")
  obtain ⟨turns, outs, -, hworks, -, hpassing, heach, -⟩ := hanswers 5
  exact ⟨hrs, hcalm, hsuits afternoon (.inl rfl), hcalls,
    Ending.exists_returned (by decide +kernel) (by decide +kernel), by decide +kernel, by decide +kernel,
    ⟨turns, outs, hworks, hpassing, heach⟩, hreturns hcalm⟩

def besides (odd : Rule) (aliases : List (String × AliasTarget)) : RuleSet :=
  { rules := [odd, { name := .text "lit", triggers := [comesFrom (.text "lamp")] }], aliases }

/-- The two rules can be loaded; but when something comes from the lamp, the call of the engine breaks with the first
of them, and the other has no turn. -/
structure TakesDown (odd : Rule) (aliases : List (String × AliasTarget)) (now : Moment) (category : FaultCategory) :
    Prop where
  loaded : ((terrace now).load (besides odd aliases) none).2.toOption = some ()
  raised : (((terrace now).load (besides odd aliases) none).1.processEvent 5
    (terraceUpdate "lamp")).2.fault?.map (·.category) = some category
  ended : (Happening.endedIn (((terrace now).load (besides odd aliases) none).1.processEvent 5
    (terraceUpdate "lamp")).1.trail).map (·.2.2.map (·.category)) = [some category]

/-- Not all rules that can be loaded answer. One with a target that is not a text, or with an alias for something
that cannot be looked up, breaks over every event; one whose bounds leave the calendar on the present day, or whose
schedule is looked up on the last day of the calendar, does so on this day; and one with the longest of cooldowns
does so when the clock has been set back by more than a day. And a rule without a cooldown that causes the event which
triggers it keeps the engine at work. -/
theorem one_rule_takes_others_down :
    let lamp : Document := .list [.text "lamp"]
    let morning (day : Day) : Moment := .onDay day (36000 * Duration.perSecond) (some 0)
    let patient : Rule :=
      { name := .text "patient", triggers := [comesFrom (.text "lamp")]
        cooldown := ⟨Duration.maxDays * Duration.perDay⟩ }
    let echo : Rule :=
      { name := .text "echo", triggers := [comesFrom (.text "lamp")], cooldown := .zero
        actions := [.process (some ⟨.item, "lamp"⟩, .update, .onOff .on, .absent, "echo")] }
    let setBack := ((terrace afternoon).load (besides patient []) none).1.run 5
      [.event (terraceUpdate "lamp"), .adjust (terrace (afternoon.plus (.ofSeconds (-90000)))).platform]
    TakesDown { name := .text "odd", triggers := [comesFrom lamp] } [] afternoon .wrongType ∧
    TakesDown { name := .text "odd", triggers := [comesFrom (.number (.int 5))] } [] afternoon .missingAttribute ∧
    TakesDown { name := .text "odd", triggers := [comesFrom (.text "short")] } [("short", ⟨.item, lamp⟩)] afternoon
      .wrongType ∧
    TakesDown { name := .text "odd", triggers := [.time (some ⟨.anchor .midnight, .ofSeconds (-3600)⟩) none] } []
      (morning 0) .overflow ∧
    TakesDown { name := .text "odd", schedule := { enabled := [⟨.full, []⟩] } } [] (morning (Day.count - 1))
      .overflow ∧
    (setBack.processEvent 5 (terraceUpdate "lamp")).2.fault?.map (·.category) = some .overflow ∧
    (((terrace afternoon).load (besides echo []) none).1.processEvent 100
      (terraceUpdate "lamp")).2.settles = false := by
  intro lamp morning patient echo setBack
  refine ⟨⟨?_, ?_, ?_⟩, ⟨?_, ?_, ?_⟩, ⟨?_, ?_, ?_⟩, ⟨?_, ?_, ?_⟩, ⟨?_, ?_, ?_⟩, ?_, ?_⟩
  all_goals decide +kernel

end World
end Domotics
