import Domotics.Proofs.Periodic.Heartbeat
import Domotics.Proofs.Run.Completion
import Domotics.Proofs.Run.Deed

/-!
An engine with one rule, which waits for nothing but the beats of an interval. Whatever the rule does when
it fires comes back as events of devices that do not make it fire again, so that every tick on a beat comes
to its end, with one more fire if the cooldown is over and with none if it is not.
-/

namespace Domotics

/-- A rule without triggers and suppressors that always runs, every so often, and whose actions keep to the
bus. -/
structure Rule.Beats (r : Rule) (e : Interval) : Prop where
  triggers : r.triggers = []
  suppressors : r.suppressors = []
  schedule : r.schedule = {}
  runsByDefault : r.runsByDefault = true
  periodic : r.periodic = [.every e]
  keepsToBus : Action.allKeepToBus r.actions = true

namespace Engine

theorem count_countUp {name : Document} (hname : name.isScalar = true) (counts : List (Document × Nat)) :
    (((countUp name counts).find? (·.1.agrees name)).map (·.2)).getD 0 =
      ((counts.find? (·.1.agrees name)).map (·.2)).getD 0 + 1 := by
  induction counts with
  | nil => simp [countUp, Document.agrees_self_of_isScalar hname]
  | cons entry rest ih =>
    rw [countUp]
    cases hagrees : entry.1.agrees name with
    | true => simp [hagrees]
    | false => simpa [hagrees] using ih

theorem firedCount_recordFire (e : Engine) {r : FiringRecord} (hname : r.rule.isScalar = true) :
    (e.recordFire r).firedCount r.rule = e.firedCount r.rule + 1 := count_countUp hname e.fireCounts

end Engine

namespace Machine

variable {m : Machine} {e : Interval} {aliases : AliasRegistry} {w : World} {now : Moment}

/-- Such a rule fires on every periodic event for which it has rested, and on nothing else. -/
theorem verdict_of_beats (h : m.rule.Beats e) {may : Bool} {rest : Duration}
    (hmay : m.retrigger.mayFire now = .ok may) (hrest : m.retrigger.remaining now = .ok rest)
    (aliases : AliasRegistry) (w : World) (x : Event) :
    ∃ j, m.verdict aliases w x now = .ok j ∧ (j.state = .firing ↔ may = true ∧ x.kind = .periodic) := by
  have hclass : m.rule.schedule.classify now w.platform.solar = .ok .neutral := by
    rw [h.schedule]
    rfl
  have htriggers : m.rule.triggers = [] := h.triggers
  rw [verdict, judge]
  simp only [noting, h.suppressors, Expression.evaluateAny, judgeSchedule, situation, World.surroundings,
    hclass, Result.ok_bind, h.runsByDefault, if_true, judgeCooldown, hmay]
  cases may with
  | false => exact ⟨_, by simp only [hrest, Result.ok_bind]; rfl, by simp⟩
  | true =>
    rw [if_pos rfl, judgeTriggers]
    by_cases hperiodic : x.kind = .periodic
    · exact ⟨_, if_pos hperiodic, by simp [hperiodic]⟩
    · rw [if_neg hperiodic]
      simp only [htriggers, Expression.evaluateAny]
      exact ⟨_, rfl, by simp [hperiodic]⟩

theorem handle_of_rests {x : Event} {j : Judgement} (hverdict : m.verdict aliases w x now = .ok j)
    (hrests : j.state ≠ .firing) :
    m.handle aliases w x now = ⟨{ m.noting x with phase := .idle },
      (w.mark (.began m.rule.name x)).mark (.passed ⟨m.rule.name, now, x, j⟩),
      .ok ⟨m.rule.name, now, x, j⟩⟩ := by
  have hhandled := m.handled_handle aliases w x now
  generalize m.handle aliases w x now = pass at hhandled ⊢
  cases hhandled with
  | broke hbroke => cases hbroke.symm.trans hverdict
  | rested hrested => cases hrested.symm.trans hverdict; rfl
  | fired _ hfired hfires =>
    cases hfired.symm.trans hverdict
    exact absurd hfires hrests
  | unplanned hfired hfires =>
    cases hfired.symm.trans hverdict
    exact absurd hfires hrests

theorem handle_of_fires {x : Event} {j : Judgement} (hverdict : m.verdict aliases w x now = .ok j)
    (hfires : j.state = .firing) {Q : Retrigger → Prop}
    (hplans : ∀ solar, ∃ retrigger, m.retrigger.recordFired now solar = (retrigger, .ok ()) ∧ Q retrigger) :
    ∃ retrigger, Q retrigger ∧ ∃ record : FiringRecord, record.rule = m.rule.name ∧
      m.handle aliases w x now = ⟨{ m.noting x with retrigger, phase := .idle },
        World.mark { m.afterActions aliases (w.mark (.began m.rule.name x)) x now with
          engine := (m.afterActions aliases (w.mark (.began m.rule.name x)) x now).engine.recordFire
            record } (.passed ⟨m.rule.name, now, x, j⟩), .ok ⟨m.rule.name, now, x, j⟩⟩ := by
  have hhandled := m.handled_handle aliases w x now
  generalize m.handle aliases w x now = pass at hhandled ⊢
  cases hhandled with
  | broke hbroke => cases hbroke.symm.trans hverdict
  | rested hrested hrests =>
    cases hrested.symm.trans hverdict
    exact absurd hfires hrests
  | @fired _ after retrigger record hfired _ hafter hrecord hname =>
    cases hfired.symm.trans hverdict
    subst hafter
    obtain ⟨_, hplanned, hq⟩ := hplans
      (m.afterActions aliases (w.mark (.began m.rule.name x)) x now).platform.solar
    cases hrecord.symm.trans hplanned
    exact ⟨retrigger, hq, record, hname, rfl⟩
  | unplanned _ _ hafter hrecord =>
    subst hafter
    obtain ⟨_, hplanned, -⟩ := hplans
      (m.afterActions aliases (w.mark (.began m.rule.name x)) x now).platform.solar
    cases hrecord.symm.trans hplanned

theorem handleTick_of_fired {pass : PassResult Outcome} {o : Outcome} (hdue : m.retrigger.due now = .ok true)
    (hpass : m.handle aliases w (.tick now) now = pass) (hresult : pass.result = .ok o)
    (hfired : o.fired = true) : m.handleTick aliases w now = ⟨pass.machine, pass.world, .ok (some o)⟩ := by
  simp [handleTick, hdue, hpass, hresult, hfired]

theorem handleTick_of_rested {pass : PassResult Outcome} {o : Outcome} {retrigger : Retrigger}
    (hdue : m.retrigger.due now = .ok true) (hpass : m.handle aliases w (.tick now) now = pass)
    (hresult : pass.result = .ok o) (hrests : o.fired = false)
    (hconsume : pass.machine.retrigger.consume now w.platform.solar = (retrigger, .ok ())) :
    m.handleTick aliases w now = ⟨{ pass.machine with retrigger }, pass.world, .ok (some o)⟩ := by
  simp [handleTick, hdue, hpass, hresult, hrests, hconsume]

end Machine

namespace World

/-- The rules stay while `w` becomes `w'`, as does the clock; a rule has fired some more times, and only
events of devices have come. -/
structure Leaves (name : Document) (more : Nat) (w w' : World) : Prop where
  book : w'.engine.book = w.engine.book
  generation : w'.engine.generation = w.engine.generation
  now : w'.platform.now = w.platform.now
  counted : w'.engine.firedCount name = w.engine.firedCount name + more
  pending : ∀ x ∈ w'.engine.pending, x ∈ w.engine.pending ∨ x.ofDevice = true

theorem Leaves.recordFire {name : Document} {more : Nat} {w w' : World} {record : FiringRecord}
    (hname : name.isScalar = true) (hrecord : record.rule = name) (h : w.Leaves name more w') :
    w.Leaves name (more + 1) { w' with engine := w'.engine.recordFire record } where
  book := h.book
  generation := h.generation
  now := h.now
  counted := by
    subst hrecord
    rw [w'.engine.firedCount_recordFire hname, h.counted, Nat.add_assoc]
  pending := h.pending

theorem actionLaw_fireCounts (counts : List (Document × Nat)) (now : Moment) :
    ActionLaw (fun _ => False) fun w => w.engine.fireCounts = counts ∧ w.platform.now = now where
  bus _ h := h
  queue _ _ h := h
  report _ h := h
  update _ _ _ h := by rw [noted]; split <;> exact h
  command _ _ _ h := by rw [noted]; split <;> exact h
  note _ h := h
  services _ _ h := h
  mark _ _ h := h
  reload _ hnever := hnever.elim

theorem leaves_afterActions {m : Machine} {w : World} (hkeeps : Action.allKeepToBus m.rule.actions = true)
    (hw : w.Wired) (name : Document) (aliases : AliasRegistry) (x : Event) (now : Moment) :
    Leaves name 0 w (m.afterActions aliases w x now) := by
  obtain ⟨inner, hacts, -⟩ := Action.acts_runEach
    ⟨{ rule := m.rule.name, event := x, now, aliases }, w⟩ m.rule.actions
  obtain ⟨hcounts, hnow⟩ := (actionLaw_fireCounts w.engine.fireCounts w.platform.now).runEach
    (s := ⟨{ rule := m.rule.name, event := x, now, aliases }, w⟩)
    (Action.allLoadOnly_of_allKeepToBus _ hkeeps) ⟨rfl, rfl⟩
  have hgeneration := (hacts.relays hkeeps hw).1
  refine ⟨hacts.book hgeneration, hgeneration, hnow, ?_, hacts.feeds hkeeps hw.subscriptions⟩
  simp only [Engine.firedCount, Machine.afterActions, hcounts, Nat.add_zero]

end World

/-- One beat of such a rule: it fires or it is passed over, and waits for the next. -/
theorem Machine.handleTick_of_beats {m : Machine} {e : Interval} {c : Duration} {start : Moment}
    {n fires : Nat} {w : World} (hbeats : m.rule.Beats e) (hname : m.rule.name.isScalar = true)
    (hc : .zero ≤ c ∧ c.Representable) (hstart : start.InCalendar)
    (hnext : (start.beat e (n + 2)).InCalendar) (h : m.retrigger.OnBeat start e c n fires) (hw : w.Wired)
    (aliases : AliasRegistry) : ∃ pass o more,
      m.handleTick aliases w (start.beat e (n + 1)) = pass ∧ pass.result = .ok (some o) ∧
      pass.machine.rule = m.rule ∧ pass.machine.retrigger.OnBeat start e c (n + 1) (fires + more) ∧
      w.Leaves m.rule.name more pass.world := by
  let tick : Event := .tick (start.beat e (n + 1))
  have hcalendar := Moment.inCalendar_beat hstart hnext (show n + 1 ≤ n + 2 by omega)
  obtain ⟨left, hleft⟩ := h.remaining hc (show n ≤ n + 1 by omega) hstart hcalendar
  obtain ⟨j, hverdict, hfires⟩ :=
    verdict_of_beats hbeats h.mayFire hleft aliases w tick
  by_cases hn : n = fires * c.stride e
  · have hfiring : j.state = .firing := hfires.mpr ⟨by simpa using hn, rfl⟩
    obtain ⟨retrigger, hbeat, record, hrecord, hpass⟩ :=
      handle_of_fires hverdict hfiring fun solar => h.recordFired hstart hnext hn solar
    have hbegun : (w.mark (.began m.rule.name tick)).Wired := ⟨hw.attached, hw.subscriptions, hw.queue⟩
    have hleaves := (World.leaves_afterActions hbeats.keepsToBus hbegun m.rule.name aliases tick
      (start.beat e (n + 1))).recordFire hname hrecord
    exact ⟨_, _, 1, handleTick_of_fired h.due hpass rfl (by simp [Outcome.fired, hfiring]), rfl, rfl, hbeat,
      hleaves.book, hleaves.generation, hleaves.now, hleaves.counted, hleaves.pending⟩
  · have hrests : j.state ≠ .firing := by simp_all
    obtain ⟨retrigger, hconsume, hbeat⟩ := h.consume hstart hnext hn w.platform.solar
    exact ⟨_, _, 0, handleTick_of_rested h.due (handle_of_rests hverdict hrests) rfl
      (by simpa [Outcome.fired] using hrests) hconsume, rfl, rfl, hbeat, rfl, rfl, rfl, rfl, fun _ => .inl⟩

namespace World

structure Lone (rule : Rule) (retrigger : Retrigger) (now : Moment) (fires : Nat) (w : World) : Prop where
  machine : ∃ m, w.engine.book.machines = [m] ∧ m.rule = rule ∧ m.retrigger = retrigger
  now : w.platform.now = now
  counted : w.engine.firedCount rule.name = fires

theorem Leaves.lone {w w' : World} {m₀ m : Machine} {more : Nat} (h : w.Leaves m.rule.name more w')
    (hmachines : w.engine.book.machines = [m₀]) :
    Lone m.rule m.retrigger w.platform.now (w.engine.firedCount m.rule.name + more)
      (w'.storeMachine w.engine.generation 0 m) where
  machine := ⟨m, by rw [storeMachine_machines m h.generation, h.book, hmachines]; rfl, rfl, rfl⟩
  now := h.now
  counted := by
    rw [← h.counted, storeMachine, Engine.store]
    split <;> rfl

theorem passAll_single {round : Round} {x : Event} {m : Machine} {w : World} {report : Report}
    {pass : PassResult Domotics.Outcome} {o : Domotics.Outcome}
    (hpass : m.handle round.aliases w x round.now = pass) (hresult : pass.result = .ok o) :
    passAll round x 0 [m] w report = (pass.world.storeMachine round.generation 0 pass.machine,
      .ok (report.add o m.rule.actions.length)) := by
  subst hpass
  simp [passAll, hresult]

theorem tickAll_single {round : Round} {m : Machine} {w : World} {report : Report}
    {pass : PassResult (Option Domotics.Outcome)} {o : Domotics.Outcome}
    (hpass : m.handleTick round.aliases w round.now = pass) (hresult : pass.result = .ok (some o)) :
    tickAll round 0 [m] w report = (pass.world.storeMachine round.generation 0 pass.machine,
      .ok (report.add o m.rule.actions.length)) := by
  subst hpass
  simp [tickAll, hresult]

section

variable {rule : Rule} {retrigger : Retrigger} {e : Interval} {c : Duration} {now start : Moment} {w : World}
  {n fires : Nat}

theorem Lone.processOne (hbeats : rule.Beats e) (h : w.Lone rule retrigger now fires) {x : Event}
    (hdevice : x.ofDevice = true) {may : Bool} {left : Duration} (hmay : retrigger.mayFire now = .ok may)
    (hleft : retrigger.remaining now = .ok left) : ∃ w' report, w.processOne x = (w', .ok report) ∧
      w'.Lone rule retrigger now fires ∧ w'.engine.pending = w.engine.pending := by
  obtain ⟨⟨m, hmachines, rfl, rfl⟩, rfl, rfl⟩ := h
  obtain ⟨j, hverdict, hfires⟩ :=
    Machine.verdict_of_beats hbeats hmay hleft w.engine.book.aliases w x
  have hrests : j.state ≠ .firing := by
    rw [Ne, hfires]
    simp_all [Event.ofDevice]
  rw [World.processOne, hmachines, passAll_single (Machine.handle_of_rests hverdict hrests) rfl]
  have hleaves : w.Leaves m.rule.name 0 ((w.mark (.began m.rule.name x)).mark
      (.passed ⟨m.rule.name, w.platform.now, x, j⟩)) := ⟨rfl, rfl, rfl, rfl, fun _ => .inl⟩
  exact ⟨_, _, rfl, hleaves.lone (m := { m.noting x with phase := .idle }) hmachines,
    storeMachine_pending ..⟩

theorem Lone.drain (hbeats : rule.Beats e) (h : w.Lone rule retrigger now fires)
    (hdevices : ∀ x ∈ w.engine.pending, x.ofDevice = true) {may : Bool} {left : Duration}
    (hmay : retrigger.mayFire now = .ok may) (hleft : retrigger.remaining now = .ok left)
    (report : Report) : ∃ fuel w' report', World.drain fuel w report = (w', .returned report') ∧
      w'.Lone rule retrigger now fires ∧ w'.engine.pending = [] := by
  induction hpending : w.engine.pending generalizing w report with
  | nil => exact ⟨1, w, report, drain_of_empty 0 report hpending, h, hpending⟩
  | cons x rest ih =>
    rw [hpending] at hdevices
    obtain ⟨hdevice, hrest⟩ := List.forall_mem_cons.mp hdevices
    have hstart : Lone rule retrigger now fires { w with engine := { w.engine with pending := rest } } :=
      ⟨h.machine, h.now, h.counted⟩
    obtain ⟨next, one, hone, hlone, hnext⟩ := hstart.processOne hbeats hdevice hmay hleft
    obtain ⟨fuel, w', report', hdrain, hdone⟩ := ih hlone (hnext ▸ hrest) (report.merge one) hnext
    refine ⟨fuel + 1, w', report', ?_, hdone⟩
    rw [drain_of_cons fuel report hpending]
    simp only [hone, hdrain]

theorem Lone.tick (hbeats : rule.Beats e) (hname : rule.name.isScalar = true)
    (hc : .zero ≤ c ∧ c.Representable) (hstart : start.InCalendar)
    (hnext : (start.beat e (n + 2)).InCalendar) (hbeat : retrigger.OnBeat start e c n fires)
    (h : w.Lone rule retrigger (start.beat e (n + 1)) fires) (hidle : w.Idle) :
    ∃ fuel w' report retrigger' fires', w.tick fuel (some (start.beat e (n + 1))) = (w', .returned report) ∧
      w'.Idle ∧ retrigger'.OnBeat start e c (n + 1) fires' ∧
      w'.Lone rule retrigger' (start.beat e (n + 1)) fires' := by
  obtain ⟨⟨m, hmachines, rfl, rfl⟩, hnow, rfl⟩ := h
  let begun := w.setDraining true
  have hwired : begun.Wired := ⟨hidle.atRest.wired.attached, hidle.atRest.wired.subscriptions,
    hidle.atRest.wired.queue⟩
  obtain ⟨pass, o, more, hpass, hresult, hrule, hafter, hleaves⟩ :=
    Machine.handleTick_of_beats hbeats hname hc hstart hnext hbeat hwired begun.engine.book.aliases
  have hround : tickAll (begun.tickRound (some (start.beat e (n + 1)))) 0 begun.engine.book.machines begun
      {} = _ := hmachines ▸ tickAll_single hpass hresult
  -- What the round leaves, with the events that the actions caused.
  rw [← hrule] at hleaves
  have hlone := hleaves.lone (m := pass.machine) hmachines
  rw [hrule, show begun.platform.now = start.beat e (n + 1) from hnow] at hlone
  have hdevices : ∀ x ∈ (pass.world.storeMachine begun.engine.generation 0 pass.machine).engine.pending,
      x.ofDevice = true := by
    intro x hx
    rw [storeMachine_pending] at hx
    have hpending : begun.engine.pending = [] := hidle.pending
    simpa [hpending] using hleaves.pending x hx
  have hcalendar := Moment.inCalendar_beat hstart hnext (show n + 1 ≤ n + 2 by omega)
  obtain ⟨left, hleft⟩ := hafter.remaining hc (Nat.le_refl _) hstart hcalendar
  obtain ⟨fuel, w', report, hdrain, hdone, hempty⟩ :=
    hlone.drain hbeats hdevices (hafter.mayFire_eq (n + 1)) hleft (({} : Report).add o m.rule.actions.length)
  have htick : w.tick fuel (some (start.beat e (n + 1))) = (w'.setDraining false, .returned report) := by
    rw [tick_of_idle fuel _ hidle.atRest.draining, hround]
    simp only [tickRound]
    rw [hdrain]
  have hrest := hidle.atRest.stays (stays_tick fuel w (some (start.beat e (n + 1))))
  rw [htick] at hrest
  exact ⟨fuel, _, report, pass.machine.retrigger, _, htick, ⟨hrest, hempty⟩, hafter,
    ⟨hdone.machine, hdone.now, hdone.counted⟩⟩

end

end World
end Domotics
