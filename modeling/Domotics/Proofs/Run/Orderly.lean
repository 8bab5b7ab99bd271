import Domotics.Proofs.Run.Line
import Domotics.Proofs.Run.Noted
import Domotics.Proofs.Run.Rest

/-!
Runs are orderly. Whatever is called, whatever the rules do and however their passes end, the events that wait
are handed to the rules in the order in which they joined the line: one at a time, and to each rule in turn. A
call that ends without a break has handed over everything that waited.
-/

namespace Domotics

open Turn

def Ending.fault? {α : Type} : Ending α → Option Fault
  | raised fault => some fault
  | _ => none

theorem Ending.exists_returned {α : Type} {ending : Ending α} (hsettles : ending.settles = true)
    (hfault : ending.fault?.isNone = true) : ∃ a, ending = .returned a := by
  cases ending with
  | returned a => exact ⟨a, rfl⟩
  | raised => cases hfault
  | unsettled => cases hsettles

namespace World

open Happening

/-- `w` becomes `w'` while these turns are taken at the line, and these passes come to an end. -/
def Proceeds (w : World) (turns : List Turn) (w' : World) : Prop :=
  ∃ added, w.Shifts turns w' added ∧ endedIn added = passesIn turns

namespace Proceeds

variable {w w' w'' : World} {turns later : List Turn}

theorem trans (h₁ : w.Proceeds turns w') (h₂ : w'.Proceeds later w'') : w.Proceeds (turns ++ later) w'' := by
  obtain ⟨added, hshifts, hends⟩ := h₁
  obtain ⟨next, hshifts', hends'⟩ := h₂
  exact ⟨added ++ next, hshifts.trans hshifts', by rw [endedIn_append, passesIn_append, hends, hends']⟩

theorem of (h : w.Shifts [] w' []) : w.Proceeds [] w' := ⟨[], h, rfl⟩

theorem setDraining (w : World) (flag : Bool) : w.Proceeds [] (w.setDraining flag) :=
  .of (.quiet rfl rfl rfl rfl rfl)

theorem report (w : World) (r : Report) : w.Proceeds [] (w.report r) := .of (.quiet rfl rfl rfl rfl rfl)

end Proceeds

section

variable {plain : Prop} {generation index : Nat} {w w' : World} {m m' : Machine} {rest : List Machine}
  {turns : List Turn} {added next : List Happening} {e : Event}

theorem ruleNames_store (hahead : w.Ahead generation index (m :: rest)) (hle : generation ≤ w.engine.generation)
    (hacts : w.Acts plain w' added) (hm' : m'.rule = m.rule) :
    (w'.storeMachine generation index m').engine.ruleNames = w'.engine.ruleNames := by
  by_cases hgeneration : w'.engine.generation = generation
  · have hmono := hacts.generation
    have hnames := hahead.map_store (·.rule.name) (by omega) hacts (by omega) (congrArg Rule.name hm')
    rw [Engine.ruleNames, Engine.ruleNames, hnames, hacts.book (by omega)]
  · simp [storeMachine, Engine.store, hgeneration]

theorem Shifts.store (h : w.Shifts turns w' next) (hahead : w.Ahead generation index (m :: rest))
    (hle : generation ≤ w.engine.generation) (hacts : w.Acts plain w' added) (hm' : m'.rule = m.rule) :
    w.Shifts turns (w'.storeMachine generation index m') next := by
  have hstored : w'.Shifts [] (w'.storeMachine generation index m') [] :=
    .quiet (ruleNames_store hahead hle hacts hm') (storeMachine_pending ..) (storeMachine_generation ..) rfl rfl
  simpa using h.trans hstored

theorem shifts_passAll (round : Round) (machines : List Machine) (report : Report)
    (hle : round.generation ≤ w.engine.generation) (hahead : w.Ahead round.generation index machines) :
    ∃ ends turns added, InTurn (machines.map (·.rule.name)) ends ∧ (∀ t ∈ turns, t.isInner = true) ∧
      w.Shifts turns (passAll round e index machines w report).1 added ∧
      endedIn added = ends.map (fun x => (x.1, e, x.2)) ∧
      ends.filterMap (·.2) = (Result.fault? (passAll round e index machines w report).2).toList := by
  induction machines generalizing index w report with
  | nil => exact ⟨[], [], [], .nil, by simp, .refl w, rfl, rfl⟩
  | cons m rest ih =>
    obtain ⟨inner, hacts, -⟩ := m.acts_handle round.aliases w e round.now
    obtain ⟨turns, added, hinner, hshifts, hends⟩ := m.shifts_handle round.aliases w e round.now
    have hrule := (m.passed_handle round.aliases w e round.now).rule
    have hstored := hshifts.store hahead hle hacts hrule
    have hmono := hacts.generation
    rw [passAll]
    cases hresult : (m.handle round.aliases w e round.now).result with
    | error fault =>
      rw [hresult] at hends
      exact ⟨[(m.rule.name, some fault)], turns, added, .broke .., hinner, hstored, hends, rfl⟩
    | ok o =>
      rw [hresult] at hends
      obtain ⟨ends, later, next, hturn, hinner', hshifts', hends', hfault⟩ :=
        ih (report.add o m.rule.actions.length) (by rw [storeMachine_generation]; omega)
          (hahead.store hle hacts (m.handle round.aliases w e round.now).machine)
      exact ⟨(m.rule.name, none) :: ends, turns ++ later, added ++ next, .passed hturn,
        List.forall_mem_append.mpr ⟨hinner, hinner'⟩, hstored.trans hshifts',
        by rw [endedIn_append, hends, hends']; rfl, hfault⟩

theorem shifts_tickAll (round : Round) (machines : List Machine) (report : Report)
    (hle : round.generation ≤ w.engine.generation) (hahead : w.Ahead round.generation index machines) :
    ∃ (ends : PassEnds) (turns : List Turn) (added : List Happening),
      (∀ x ∈ ends, x.1 ∈ machines.map (·.rule.name)) ∧ (∀ t ∈ turns, t.isInner = true) ∧
      w.Shifts turns (tickAll round index machines w report).1 added ∧
      endedIn added = ends.map (fun x => (x.1, .tick round.now, x.2)) ∧
      ends.filterMap (·.2) = (Result.fault? (tickAll round index machines w report).2).toList := by
  induction machines generalizing index w report with
  | nil => exact ⟨[], [], [], by simp, by simp, .refl w, rfl, rfl⟩
  | cons m rest ih =>
    obtain ⟨inner, hacts⟩ := m.acts_handleTick round.aliases w round.now
    obtain ⟨turns, added, mine, hinner, hshifts, hends, hfaults⟩ := m.shifts_handleTick round.aliases w round.now
    have hstored := hshifts.store hahead hle hacts (m.rule_handleTick round.aliases w round.now)
    have hmono := hacts.generation
    have hnext := hahead.store hle hacts (m.handleTick round.aliases w round.now).machine
    have hmine : ∀ x ∈ mine.map (m.rule.name, ·), x.1 ∈ (m :: rest).map (·.rule.name) := by simp
    have hfst : (mine.map (m.rule.name, ·)).filterMap (·.2) = mine.filterMap id := by
      rw [List.filterMap_map]
      rfl
    -- A rule that does not break leaves the round to the rules after it.
    have hgo (report : Report) (hok : Result.fault? (m.handleTick round.aliases w round.now).result = none) :
        ∃ (ends : PassEnds) (turns : List Turn) (added : List Happening),
          (∀ x ∈ ends, x.1 ∈ (m :: rest).map (·.rule.name)) ∧ (∀ t ∈ turns, t.isInner = true) ∧
          w.Shifts turns (tickAll round (index + 1) rest ((m.handleTick round.aliases w round.now).world.storeMachine
            round.generation index (m.handleTick round.aliases w round.now).machine) report).1 added ∧
          endedIn added = ends.map (fun x => (x.1, .tick round.now, x.2)) ∧
          ends.filterMap (·.2) = (Result.fault? (tickAll round (index + 1) rest
            ((m.handleTick round.aliases w round.now).world.storeMachine round.generation index
              (m.handleTick round.aliases w round.now).machine) report).2).toList := by
      obtain ⟨ends, later, next, hnames, hinner', hshifts', hends', hfault⟩ :=
        ih report (by rw [storeMachine_generation]; omega) hnext
      refine ⟨mine.map (m.rule.name, ·) ++ ends, turns ++ later, added ++ next,
        List.forall_mem_append.mpr ⟨hmine, fun x hx => List.mem_cons_of_mem _ (hnames x hx)⟩,
        List.forall_mem_append.mpr ⟨hinner, hinner'⟩, hstored.trans hshifts', ?_, ?_⟩
      · rw [endedIn_append, hends, hends', List.map_append, List.map_map]
        rfl
      · rw [List.filterMap_append, hfst, hfaults, hok, hfault]
        rfl
    rw [tickAll]
    split
    · next hresult => exact hgo report (by rw [hresult]; rfl)
    · next o hresult => exact hgo _ (by rw [hresult]; rfl)
    · next fault hresult =>
      refine ⟨mine.map (m.rule.name, ·), turns, added, hmine, hinner, hstored, ?_, ?_⟩
      · rw [hends, List.map_map]
        rfl
      · rw [hfst, hfaults, hresult]
        rfl

/-- What a call of the engine comes to: the faults that break passes are those that it raises, and if it answers,
no event waits any more. -/
structure Works {α : Type} (w : World) (turns : List Turn) (out : World × Ending α) : Prop where
  proceeds : w.Proceeds turns out.1
  faults : faultsIn turns = out.2.fault?.toList
  done : ∀ a, out.2 = .returned a → out.1.engine.pending = []

theorem Shifts.proceeds {start : World} {turn : Turn} {ends : List (Document × Event × Option Fault)}
    (hturn : w.Shifts [turn] start []) (h : start.Shifts turns w' added) (hinner : ∀ t ∈ turns, t.isInner = true)
    (hpasses : turn.passes = ends) (hends : endedIn added = ends) :
    w.Proceeds (turn :: turns) w' ∧ faultsIn (turn :: turns) = ends.filterMap (·.2.2) := by
  have hall : passesIn (turn :: turns) = ends := by
    rw [passesIn, List.flatMap_cons, ← passesIn, passesIn_of_isInner hinner, List.append_nil, hpasses]
  exact ⟨⟨added, hturn.trans h, by rw [hends, hall]⟩, by rw [faultsIn, hall]⟩

theorem proceeds_processOne {later : List Event} (hpending : w.engine.pending = e :: later) :
    let out := processOne { w with engine := { w.engine with pending := later } } e
    ∃ ends inner, (∀ t ∈ inner, t.isInner = true) ∧ w.Proceeds (.handed e ends :: inner) out.1 ∧
      faultsIn (.handed e ends :: inner) = (Result.fault? out.2).toList := by
  intro out
  let start : World := { w with engine := { w.engine with pending := later } }
  obtain ⟨ends, turns, added, hturn, hinner, hshifts, hends, hfaults⟩ :=
    shifts_passAll (w := start) (e := e) ⟨w.engine.book.aliases, w.engine.generation, w.platform.now⟩
      w.engine.book.machines {} (Nat.le_refl _) fun _ => List.drop_zero
  have htaken : w.Shifts [.handed e ends] start [] := {
    trail := by simp [start, trail]
    line := by
      rw [World.line, hpending]
      exact .single (.handed hturn)
    generation := rfl
    subscriptions := rfl
    dispatching := rfl
    queue := fun _ h => h
    held := fun _ => rfl
    relayed := by simp [start, fromBusIn, fromBus?, publishedIn] }
  obtain ⟨hproceeds, hbroke⟩ := htaken.proceeds hshifts hinner rfl hends
  exact ⟨ends, turns, hinner, hproceeds, hbroke.trans ((faults_handed e ends).trans hfaults)⟩

theorem works_drain (fuel : Nat) (report : Report) :
    ∃ turns, Rounds turns ∧ w.Works turns (drain fuel w report) := by
  induction fuel generalizing w report with
  | zero => exact ⟨[], .nil, .of (.refl w), rfl, by simp [drain]⟩
  | succ fuel ih =>
    cases hpending : w.engine.pending with
    | nil =>
      rw [drain_of_empty fuel report hpending]
      exact ⟨[], .nil, .of (.refl w), rfl, fun _ _ => hpending⟩
    | cons e later =>
      obtain ⟨ends, inner, hinner, hproceeds, hfaults⟩ := proceeds_processOne hpending
      rw [drain_of_cons fuel report hpending]
      split
      · next one hresult =>
        obtain ⟨others, hrounds, hworks⟩ := ih (report.merge one)
        refine ⟨_, .cons e ends hinner hrounds, hproceeds.trans hworks.proceeds, ?_, hworks.done⟩
        rw [faultsIn_append, hfaults, hresult, hworks.faults]
        rfl
      · next fault hresult =>
        refine ⟨_, .cons e ends hinner .nil, ?_, ?_, by simp⟩
        · rwa [List.append_nil]
        · rw [List.append_nil, hfaults, hresult]
          rfl

theorem works_processEvent (fuel : Nat) (e : Event) (hidle : w.engine.draining = false) :
    ∃ turns, Rounds turns ∧ Works { w with engine := w.engine.enqueue e } turns (w.processEvent fuel e) := by
  let start : World := { w with engine := w.engine.enqueue e }
  obtain ⟨turns, hrounds, hworks⟩ := works_drain (w := start.setDraining true) fuel {}
  rw [processEvent_of_idle fuel e hidle]
  have hproceeds := ((Proceeds.setDraining start true).trans hworks.proceeds).trans (.setDraining _ false)
  rw [List.append_nil, List.nil_append] at hproceeds
  exact ⟨turns, hrounds, hproceeds, hworks.faults, hworks.done⟩

theorem works_tick (fuel : Nat) (now : Option Moment) (hidle : w.engine.draining = false) :
    ∃ turns, w.Works turns (w.tick fuel now) := by
  let start := w.setDraining true
  let all := tickAll (start.tickRound now) 0 start.engine.book.machines start {}
  obtain ⟨ends, turns, added, hnames, hinner, hshifts, hends, hfaults⟩ :=
    shifts_tickAll (w := start) (start.tickRound now) start.engine.book.machines {} (Nat.le_refl _)
      fun _ => List.drop_zero
  have hticked : w.Shifts [.ticked (start.tickRound now).now ends] start [] := {
    trail := by simp [start, trail, World.setDraining]
    line := .single (.ticked hnames)
    generation := rfl
    subscriptions := rfl
    dispatching := rfl
    queue := fun _ h => h
    held := fun _ => rfl
    relayed := by simp [start, World.setDraining, fromBusIn, fromBus?, publishedIn] }
  obtain ⟨hproceeds, hbroke⟩ := hticked.proceeds hshifts hinner rfl hends
  rw [faults_ticked, hfaults] at hbroke
  rw [tick_of_idle fuel now hidle]
  split
  · next fault hresult =>
    refine ⟨_, hproceeds.trans (.setDraining _ false), ?_, by simp⟩
    rw [List.append_nil, hbroke, show all.2 = _ from hresult]
    rfl
  · next report hresult =>
    obtain ⟨others, -, hworks⟩ := works_drain (w := all.1) fuel report
    refine ⟨_, (hproceeds.trans hworks.proceeds).trans (.setDraining _ false), ?_, hworks.done⟩
    rw [List.append_nil, faultsIn_append, hbroke, show all.2 = _ from hresult, hworks.faults]
    rfl

end

/-! ### Over the bus -/

structure Flows (w : World) (turns : List Turn) (w' : World) (added : List Happening) : Prop where
  trail : w'.trail = w.trail ++ added
  line : Runs w.line turns w'.line
  generation : w'.engine.generation = w.engine.generation + turns.countP (·.renews)
  subscriptions : w'.bus.subscriptions = w.bus.subscriptions
  ended : endedIn added = passesIn turns

section

variable {w w' w'' : World} {turns later : List Turn} {added next : List Happening} {e : Event}

theorem Flows.trans (h₁ : w.Flows turns w' added) (h₂ : w'.Flows later w'' next) :
    w.Flows (turns ++ later) w'' (added ++ next) where
  trail := by rw [h₂.trail, h₁.trail, List.append_assoc]
  line := h₁.line.append h₂.line
  generation := by rw [h₂.generation, h₁.generation, List.countP_append, Nat.add_assoc]
  subscriptions := h₂.subscriptions.trans h₁.subscriptions
  ended := by rw [endedIn_append, passesIn_append, h₁.ended, h₂.ended]

theorem Shifts.flows (h : w.Shifts turns w' added) (hends : endedIn added = passesIn turns) :
    w.Flows turns w' added :=
  ⟨h.trail, h.line, h.generation, h.subscriptions, hends⟩

theorem Flows.renews_eq_false (h : w.Flows turns w' added) (hsame : w'.engine.generation = w.engine.generation) :
    ∀ t ∈ turns, t.renews = false := by
  have hgeneration := h.generation
  have hnone : turns.countP (·.renews) = 0 := by omega
  exact fun t ht => Bool.eq_false_iff.mpr (List.countP_eq_zero.mp hnone t ht)

/-- So each event that has joined the line has been handed over, in turn, or waits. -/
theorem Flows.inOrder (h : w.Flows turns w' added) (hsame : w'.engine.generation = w.engine.generation) :
    handedIn turns ++ w'.engine.pending = w.engine.pending ++ joinedIn turns :=
  (h.line.inOrder (h.renews_eq_false hsame)).2

theorem Flows.pending_of_nil (h : w.Flows [] w' added) : w'.engine.pending = w.engine.pending := by
  exact congrArg Line.waiting h.line.eq_of_nil.symm

theorem Flows.done_append (h : w'.Flows later w'' next) (hfirst : turns = [] ∨ w'.engine.pending = [])
    (hlater : later = [] ∨ w''.engine.pending = []) : turns ++ later = [] ∨ w''.engine.pending = [] := by
  rcases hlater with rfl | hlater
  · rw [h.pending_of_nil, List.append_nil]
    exact hfirst
  · exact .inr hlater

theorem Flows.quiet (hengine : w'.engine = w.engine) (hsubscriptions : w'.bus.subscriptions = w.bus.subscriptions)
    (htrail : w'.trail = w.trail) : w.Flows [] w' [] where
  trail := by rw [htrail, List.append_nil]
  line := by
    rw [World.line, World.line, hengine]
    exact .nil _
  generation := by rw [hengine]; rfl
  subscriptions := hsubscriptions
  ended := rfl

theorem flows_handleFromBus (fuel : Nat) (e : Event) (hdraining : w.engine.draining = false)
    (hdispatching : w.bus.dispatching = true) (hends : (w.handleFromBus fuel e).2 ≠ .escaped) :
    ∃ turns added, w.Flows (.joined e true :: turns) (w.handleFromBus fuel e).1 added ∧ fromBusIn turns = [] ∧
      copies w.bus.subscriptions (w.handleFromBus fuel e).1.bus.queue =
        copies w.bus.subscriptions (w.bus.queue ++ publishedIn added) ∧
      (faultsIn turns = [] → (w.handleFromBus fuel e).1.engine.pending = []) := by
  let start : World := { w with engine := w.engine.enqueue e }
  obtain ⟨turns, -, ⟨added, hshifts, hended⟩, hfaults, hdone⟩ := works_processEvent fuel e hdraining
  have hjoins : w.Flows [.joined e true] start [] := {
    trail := by simp [start, trail]
    line := .single (.joined ..)
    generation := rfl
    subscriptions := rfl
    ended := rfl }
  have hflows : w.Flows (.joined e true :: turns) (w.processEvent fuel e).1 added :=
    hjoins.trans (hshifts.flows hended)
  have hrelayed := hshifts.relayed
  rw [hshifts.held hdispatching, List.nil_append] at hrelayed
  rw [handleFromBus] at hends ⊢
  rcases hout : w.processEvent fuel e with ⟨next, report | fault | _⟩ <;> rw [hout] at hflows hrelayed hfaults hdone
  · have hreport : next.Flows [] (next.report report) [] := .quiet rfl rfl rfl
    refine ⟨turns, added, ?_, hshifts.held hdispatching, hrelayed, fun _ => hdone report rfl⟩
    simpa using hflows.trans hreport
  · refine ⟨turns, added, hflows, hshifts.held hdispatching, hrelayed, fun hnone => ?_⟩
    rw [hnone] at hfaults
    cases hfaults
  · simp [hout] at hends

theorem flows_deliver (fuel : Nat) (e : Event) {subscriptions : List (EventFilter × Listener)}
    (hdraining : w.engine.draining = false) (hdispatching : w.bus.dispatching = true)
    (hcut : ((busSystem fuel).deliver e subscriptions w).2 = false) :
    ∃ turns added, w.Flows turns ((busSystem fuel).deliver e subscriptions w).1 added ∧
      fromBusIn turns = copies subscriptions [e] ∧
      copies w.bus.subscriptions ((busSystem fuel).deliver e subscriptions w).1.bus.queue =
        copies w.bus.subscriptions (w.bus.queue ++ publishedIn added) ∧
      (faultsIn turns = [] → turns = [] ∨
        ((busSystem fuel).deliver e subscriptions w).1.engine.pending = []) := by
  induction subscriptions generalizing w with
  | nil => exact ⟨[], [], .quiet rfl rfl rfl, rfl, by simp [BusSystem.deliver, publishedIn], fun _ => .inl rfl⟩
  | cons subscription rest ih =>
    by_cases hf : subscription.1.accepts e = true
    · by_cases hescaped : (w.handleFromBus fuel e).2 = .escaped
      · rw [BusSystem.deliver_of_escaped _ hf hescaped] at hcut
        cases hcut
      · rw [BusSystem.deliver_of_not_escaped _ hf hescaped] at hcut ⊢
        obtain ⟨turns, added, hflows, hnone, hrelayed, hdone⟩ :=
          flows_handleFromBus fuel e hdraining hdispatching hescaped
        have hstays := stays_handleFromBus fuel w e
        obtain ⟨later, next, hflows', hfrom, hrelayed', hdone'⟩ :=
          ih (hstays.draining.trans hdraining) (hstays.dispatching.trans hdispatching) hcut
        rw [show ((busSystem fuel).handle subscription.2 e w).1 = (w.handleFromBus fuel e).1 from rfl] at *
        rw [hflows.subscriptions] at hrelayed'
        refine ⟨_, _, hflows.trans hflows', ?_, ?_, fun hfaults => ?_⟩
        · rw [fromBusIn_append, fromBusIn_cons, hnone, hfrom]
          simp [copies, hf, fromBus?, List.replicate_succ]
        · rw [hrelayed', copies_append, hrelayed, publishedIn_append, copies_append, copies_append, copies_append,
            List.append_assoc]
        · obtain ⟨hfirst, hlater⟩ := List.append_eq_nil_iff.mp ((faultsIn_append ..).symm.trans hfaults)
          exact hflows'.done_append (.inr (hdone hfirst)) (hdone' hlater)
    · rw [BusSystem.deliver_of_not_accepts _ hf] at hcut ⊢
      obtain ⟨turns, added, hflows, hfrom, hrelayed, hdone⟩ := ih hdraining hdispatching hcut
      refine ⟨turns, added, hflows, ?_, hrelayed, hdone⟩
      simpa [copies, hf] using hfrom

/-- When the bus has gone through the events that wait there, each has come to the line, once for every subscriber
that wants it. -/
theorem flows_drainBus (fuel count : Nat) (hdraining : w.engine.draining = false)
    (hdispatching : w.bus.dispatching = true) (hending : ((busSystem fuel).drain count w).2 = .settled) :
    ∃ turns added, w.Flows turns ((busSystem fuel).drain count w).1 added ∧
      fromBusIn turns = copies w.bus.subscriptions (w.bus.queue ++ publishedIn added) ∧
      (faultsIn turns = [] → turns = [] ∨ ((busSystem fuel).drain count w).1.engine.pending = []) ∧
      ((busSystem fuel).drain count w).1.bus.dispatching = false ∧
      ((busSystem fuel).drain count w).1.bus.queue = [] := by
  induction count generalizing w with
  | zero => simp [BusSystem.drain] at hending
  | succ count ih =>
    cases hqueue : w.bus.queue with
    | nil =>
      rw [BusSystem.drain_of_empty (busSystem fuel) count hqueue]
      exact ⟨[], [], .quiet rfl rfl rfl, rfl, fun _ => .inl rfl, rfl, hqueue⟩
    | cons e rest =>
      obtain ⟨hcut, hnext⟩ := drainBus_of_cons fuel count hqueue hending
      have hstays := stays_deliver fuel (w.taken rest) e w.bus.subscriptions
      have htaken : w.Flows [] (w.taken rest) [] := .quiet rfl rfl rfl
      obtain ⟨turns, added, hflows, hfrom, hrelayed, hdone⟩ :=
        flows_deliver (w := w.taken rest) fuel e hdraining hdispatching hcut
      rw [hnext] at hending ⊢
      obtain ⟨later, next, hflows', hfrom', hdone', hidle⟩ :=
        ih (hstays.draining.trans hdraining) (hstays.dispatching.trans hdispatching) hending
      have hboth : w.Flows (turns ++ later) _ (added ++ next) := htaken.trans (hflows.trans hflows')
      rw [hflows.subscriptions] at hfrom'
      refine ⟨_, _, hboth, ?_, fun hfaults => ?_, hidle⟩
      · have htail : copies w.bus.subscriptions
            ((busSystem fuel).deliver e w.bus.subscriptions (w.taken rest)).1.bus.queue =
              copies w.bus.subscriptions (rest ++ publishedIn added) := hrelayed
        have hlater : fromBusIn later = copies w.bus.subscriptions
            (((busSystem fuel).deliver e w.bus.subscriptions (w.taken rest)).1.bus.queue ++ publishedIn next) :=
          hfrom'
        rw [fromBusIn_append, hfrom, hlater, copies_append, htail, ← copies_append, ← copies_append,
          publishedIn_append, List.append_assoc]
        rfl
      · obtain ⟨hfirst, hlater⟩ := List.append_eq_nil_iff.mp ((faultsIn_append ..).symm.trans hfaults)
        exact hflows'.done_append (hdone hfirst) (hdone' hlater)

end

/-- What a call comes to in a world at rest. Each event that is published on the bus has come to the line, once for
every subscriber that wants it; and if no pass breaks, nothing has been done or no event waits any more. -/
structure ComesTo (w : World) (turns : List Turn) (w' : World) : Prop where
  flows : ∃ added, w.Flows turns w' added ∧ fromBusIn turns = copies w.bus.subscriptions (publishedIn added)
  done : faultsIn turns = [] → turns = [] ∨ w'.engine.pending = []

/-- A world between calls: the engine is not at work, no delivery goes on, and no event waits on the bus. -/
structure Quiet (w : World) : Prop where
  draining : w.engine.draining = false
  dispatching : w.bus.dispatching = false
  queue : w.bus.queue = []

section

variable {w w' w'' : World} {turns later : List Turn} (fuel : Nat)

theorem ComesTo.trans (h₁ : w.ComesTo turns w') (h₂ : w'.ComesTo later w'') : w.ComesTo (turns ++ later) w'' := by
  obtain ⟨added, hflows, hfrom⟩ := h₁.flows
  obtain ⟨next, hflows', hfrom'⟩ := h₂.flows
  refine ⟨⟨added ++ next, hflows.trans hflows', ?_⟩, fun hfaults => ?_⟩
  · rw [fromBusIn_append, hfrom, hfrom', hflows.subscriptions, publishedIn_append, copies_append]
  · obtain ⟨hfirst, hlater⟩ := List.append_eq_nil_iff.mp ((faultsIn_append ..).symm.trans hfaults)
    exact hflows'.done_append (h₁.done hfirst) (h₂.done hlater)

theorem ComesTo.quiet (hengine : w'.engine = w.engine) (hsubscriptions : w'.bus.subscriptions = w.bus.subscriptions)
    (htrail : w'.trail = w.trail) : w.ComesTo [] w' :=
  ⟨⟨[], .quiet hengine hsubscriptions htrail, rfl⟩, fun _ => .inl rfl⟩

/-- A call of the engine that ends is such a call, and leaves the bus at rest. -/
theorem Works.comesTo {α : Type} {out : World × Ending α} (h : w.Works turns out) (hquiet : w.Quiet)
    (hending : out.2 ≠ .unsettled) :
    w.ComesTo turns out.1 ∧ out.1.bus.dispatching = false ∧ out.1.bus.queue = [] := by
  obtain ⟨⟨added, hshifts, hended⟩, hfaults, hdone⟩ := h
  have hqueue := hshifts.queue hquiet.dispatching hquiet.queue
  have hrelayed := hshifts.relayed
  rw [hqueue, hquiet.queue, copies_nil, List.append_nil, List.nil_append] at hrelayed
  refine ⟨⟨⟨added, hshifts.flows hended, hrelayed⟩, fun hnone => ?_⟩,
    hshifts.dispatching.trans hquiet.dispatching, hqueue⟩
  rw [hnone] at hfaults
  rcases hout : out.2 with a | fault | _
  · exact .inr (hdone a hout)
  · rw [hout] at hfaults
    cases hfaults
  · exact absurd hout hending

theorem works_event (e : Event) (hidle : w.engine.draining = false) :
    ∃ turns, Rounds turns ∧ w.Works (.joined e false :: turns) (w.processEvent fuel e) := by
  obtain ⟨turns, hrounds, hworks⟩ := works_processEvent fuel e hidle
  have hjoined : w.Proceeds [.joined e false] { w with engine := w.engine.enqueue e } := ⟨[], .joined w e, rfl⟩
  exact ⟨turns, hrounds, hjoined.trans hworks.proceeds, hworks.faults, hworks.done⟩

def Rested (w w' : World) : Prop := (∃ turns, w.ComesTo turns w') ∧ w'.Quiet

theorem Rested.trans (h₁ : w.Rested w') (h₂ : w'.Rested w'') : w.Rested w'' := by
  obtain ⟨⟨turns, hanswers⟩, -⟩ := h₁
  obtain ⟨⟨later, hanswers'⟩, hquiet⟩ := h₂
  exact ⟨⟨_, hanswers.trans hanswers'⟩, hquiet⟩

theorem Quiet.rested (h : w.Quiet) (hengine : w'.engine = w.engine) (hbus : w'.bus = w.bus)
    (htrail : w'.trail = w.trail) : w.Rested w' :=
  ⟨⟨[], .quiet hengine (by rw [hbus]) htrail⟩, hengine ▸ h.draining, hbus ▸ h.dispatching, hbus ▸ h.queue⟩

theorem rested_publishOnBus (h : w.Quiet) (e : Event) (hending : (w.publishOnBus fuel e).2 ≠ .unsettled) :
    w.Rested (w.publishOnBus fuel e).1 := by
  obtain ⟨hsettled, hworld⟩ := drainBus_of_publishOnBus fuel h.dispatching hending
  obtain ⟨turns, added, hflows, hfrom, hdone, hdispatching, hqueue⟩ :=
    flows_drainBus (w := w.published e) fuel fuel h.draining rfl hsettled
  have hpublished : w.Flows [] (w.published e) [.published e] := {
    trail := mark_trail ..
    line := .nil _
    generation := rfl
    subscriptions := rfl
    ended := rfl }
  have hwaiting : (w.published e).bus.queue ++ publishedIn added = publishedIn ([.published e] ++ added) := by
    simp [published, h.queue, publishedIn, published?]
  rw [hwaiting] at hfrom
  rw [hworld]
  exact ⟨⟨turns, ⟨_, hpublished.trans hflows, hfrom⟩, hdone⟩, (draining_drainBus fuel fuel).trans h.draining,
    hdispatching, hqueue⟩

theorem rested_publish (h : w.Quiet) (e : Event) (hending : (w.publish fuel e).2 ≠ .unsettled) :
    w.Rested (w.publish fuel e).1 := by
  rw [publish] at hending ⊢
  split_ifs at hending ⊢
  · exact h.rested rfl rfl rfl
  · exact rested_publishOnBus fuel h e hending

theorem rested_updateState (h : w.Quiet) (r : Reference) (v : Value) (source : String)
    (hending : (w.updateState fuel r v source).2 ≠ .unsettled) :
    w.Rested (w.updateState fuel r v source).1 := by
  have hstart : w.Rested { w with platform := (w.platform.update r v source).1 } := h.rested rfl rfl rfl
  exact hstart.trans (rested_publish fuel hstart.2 _ hending)

theorem rested_sendCommand (h : w.Quiet) (r : Reference) (v : Value) (source : String)
    (hending : (w.sendCommand fuel r v source).2 ≠ .unsettled) :
    w.Rested (w.sendCommand fuel r v source).1 := by
  have hstart : w.Rested { w with platform := (w.platform.command r v source).1 } := h.rested rfl rfl rfl
  obtain ⟨hsent, heq⟩ := sendCommand_of_ends fuel r v source hending
  have hrested := hstart.trans (rested_publish fuel hstart.2 _ hsent)
  rw [heq] at hending ⊢
  split_ifs at hending ⊢
  · exact hrested.trans (rested_updateState fuel hrested.2 r v source hending)
  · exact hrested

theorem rested_event (h : w.Quiet) (e : Event) (hending : (w.processEvent fuel e).2 ≠ .unsettled) :
    w.Rested (w.processEvent fuel e).1 := by
  obtain ⟨turns, -, hworks⟩ := works_event fuel e h.draining
  obtain ⟨hanswers, hdispatching, hqueue⟩ := hworks.comesTo h hending
  exact ⟨⟨_, hanswers⟩, (stays_processEvent fuel w e).draining.trans h.draining, hdispatching, hqueue⟩

theorem rested_tick (h : w.Quiet) (now : Option Moment) (hending : (w.tick fuel now).2 ≠ .unsettled) :
    w.Rested (w.tick fuel now).1 := by
  obtain ⟨turns, hworks⟩ := works_tick fuel now h.draining
  obtain ⟨hanswers, hdispatching, hqueue⟩ := hworks.comesTo h hending
  exact ⟨⟨_, hanswers⟩, (stays_tick fuel w now).draining.trans h.draining, hdispatching, hqueue⟩

/-- Every call that ends leaves a world at rest as orderly as it found it. -/
theorem rested_perform (h : w.Quiet) (c : Call) (hending : (w.perform fuel c).2 ≠ .unsettled) :
    w.Rested (w.perform fuel c).1 := by
  cases c with
  | event e => exact rested_event fuel h e fun hunsettled => hending (by simp [perform, hunsettled, Ending.map])
  | publish e => exact rested_publishOnBus fuel h e hending
  | update r v source => exact rested_updateState fuel h r v source hending
  | command r v source => exact rested_sendCommand fuel h r v source hending
  | tick now => exact rested_tick fuel h now fun hunsettled => hending (by simp [perform, hunsettled, Ending.map])
  | adjust p => exact h.rested rfl rfl rfl

end

end World
end Domotics
