import Domotics.Proofs.Run.Past
import Domotics.Proofs.Run.Rest

/-!
Loading rules afresh. A load leaves nothing of the time before it but the history of fires and the count of
generations, and no rule sees these: all that comes to the engine after the load is answered as by a new
engine over the same platform that has loaded the same rules.
-/

namespace Domotics

/-- A world with a past beside the same world without it. The fires on record may differ. -/
inductive World.Aged (past : Past) : World → World → Prop where
  | intro (fires : Fires) (v : World) : Aged past (v.aged past fires) v

structure World.AgedOut (past : Past) {α : Type} (x y : World × α) : Prop where
  worlds : Aged past x.1 y.1
  answers : x.2 = y.2

structure PassResult.Aged (past : Past) {α : Type} (p q : PassResult α) : Prop where
  machine : p.machine = q.machine
  world : World.Aged past p.world q.world
  result : p.result = q.result

variable {past : Past}

theorem World.AgedOut.eq_pairs {α : Type} {x y : World × α} (h : AgedOut past x y) :
    ∃ w v a, x = (w, a) ∧ y = (v, a) ∧ Aged past w v :=
  ⟨x.1, y.1, y.2, Prod.ext rfl h.answers, rfl, h.worlds⟩

namespace World.Aged

variable {w v : World}

theorem mark (h : World.Aged past w v) (x : Happening) : World.Aged past (w.mark x) (v.mark x) := by
  cases h with
  | intro fires v =>
    rw [aged_mark]
    exact .intro fires (v.mark x)

theorem report (h : World.Aged past w v) (r : Report) : World.Aged past (w.report r) (v.report r) := by
  cases h with
  | intro fires v =>
    rw [aged_report]
    exact .intro fires (v.report r)

theorem recordFire (h : World.Aged past w v) (r : FiringRecord) : World.Aged past
    { w with engine := w.engine.recordFire r } { v with engine := v.engine.recordFire r } := by
  cases h with
  | intro fires v =>
    rw [aged_recordFire]
    exact .intro (fires.add r) { v with engine := v.engine.recordFire r }

theorem storeMachine (h : World.Aged past w v) (generation index : Nat) (m : Machine) : World.Aged past
    (w.storeMachine (past.generations + generation) index m) (v.storeMachine generation index m) := by
  cases h with
  | intro fires v =>
    rw [storeMachine_aged]
    exact .intro fires (v.storeMachine generation index m)

theorem setDraining (h : World.Aged past w v) (flag : Bool) :
    World.Aged past (w.setDraining flag) (v.setDraining flag) := by
  cases h with
  | intro fires v => exact .intro fires (v.setDraining flag)

theorem enqueue (h : World.Aged past w v) (e : Event) : World.Aged past
    { w with engine := w.engine.enqueue e } { v with engine := v.engine.enqueue e } := by
  cases h with
  | intro fires v => exact .intro fires { v with engine := v.engine.enqueue e }

theorem setPending (h : World.Aged past w v) (pending : List Event) : World.Aged past
    { w with engine := { w.engine with pending } } { v with engine := { v.engine with pending } } := by
  cases h with
  | intro fires v => exact .intro fires { v with engine := { v.engine with pending } }

theorem onBus (h : World.Aged past w v) (f : Bus Listener → Bus Listener) :
    World.Aged past { w with bus := f w.bus } { v with bus := f v.bus } := by
  cases h with
  | intro fires v => exact .intro fires { v with bus := f v.bus }

theorem onPlatform (h : World.Aged past w v) (f : Platform → Platform) :
    World.Aged past { w with platform := f w.platform } { v with platform := f v.platform } := by
  cases h with
  | intro fires v => exact .intro fires { v with platform := f v.platform }

theorem platform (h : World.Aged past w v) : w.platform = v.platform := by cases h; rfl

theorem bus (h : World.Aged past w v) : w.bus = v.bus := by cases h; rfl

theorem book (h : World.Aged past w v) : w.engine.book = v.engine.book := by cases h; rfl

theorem pending (h : World.Aged past w v) : w.engine.pending = v.engine.pending := by cases h; rfl

theorem draining (h : World.Aged past w v) : w.engine.draining = v.engine.draining := by cases h; rfl

theorem generation (h : World.Aged past w v) :
    w.engine.generation = past.generations + v.engine.generation := by cases h; rfl

end World.Aged

namespace Machine

variable (m : Machine) (aliases : AliasRegistry) {w v : World} (e : Event) (now : Moment)

theorem fire_aged (h : World.Aged past w v) :
    (m.fire aliases w e now).Aged past (m.fire aliases v e now) := by
  cases h with
  | intro fires v =>
    let firing : Firing := { rule := m.rule.name, event := e, now, aliases }
    have heach := Action.runEach_aged past fires ⟨firing, v⟩ m.rule.actions
    rw [fire, fire]
    dsimp only
    rw [show (⟨firing, v.aged past fires⟩ : FiringState) = FiringState.aged past fires ⟨firing, v⟩ from rfl,
      heach]
    rcases Action.runEach ⟨firing, v⟩ m.rule.actions with ⟨s, errors⟩
    dsimp only [FiringState.agedOut, FiringState.aged_world, World.aged_platform]
    rcases m.retrigger.recordFired now s.world.platform.solar with ⟨retrigger, fault | ⟨⟩⟩
    · exact ⟨rfl, .intro fires s.world, rfl⟩
    · exact ⟨rfl, (World.Aged.intro fires s.world).recordFire _, rfl⟩

theorem conclude_aged (h : World.Aged past w v) (j : Judgement) :
    (m.conclude aliases w e now j).Aged past (m.conclude aliases v e now j) := by
  have hfire := fire_aged { m with phase := .firing } aliases e now h
  rw [conclude, conclude]
  dsimp only
  split
  · exact ⟨congrArg (fun m : Machine => { m with phase := .idle }) hfire.machine, hfire.world,
      congrArg (Except.map _) hfire.result⟩
  · exact ⟨rfl, h, rfl⟩

theorem attempt_aged (h : World.Aged past w v) :
    (m.attempt aliases w e now).Aged past (m.attempt aliases v e now) := by
  have hsurroundings : w.surroundings aliases = v.surroundings aliases := by cases h; rfl
  rw [attempt, attempt, hsurroundings]
  split
  · exact conclude_aged _ aliases e now h _
  · exact ⟨rfl, h, rfl⟩

/-- A pass over an event goes the same way in a world with a past. -/
theorem handle_aged (h : World.Aged past w v) :
    (m.handle aliases w e now).Aged past (m.handle aliases v e now) := by
  have hattempt := m.attempt_aged aliases e now (h.mark (.began m.rule.name e))
  refine ⟨hattempt.machine, ?_, hattempt.result⟩
  rw [handle, handle, hattempt.result]
  exact hattempt.world.mark _

theorem handleTick_aged (h : World.Aged past w v) :
    (m.handleTick aliases w now).Aged past (m.handleTick aliases v now) := by
  have hhandle := m.handle_aged aliases (.tick now) now h
  rw [handleTick, handleTick, h.platform]
  generalize m.handle aliases w (.tick now) now = pass at hhandle ⊢
  generalize m.handle aliases v (.tick now) now = pass' at hhandle ⊢
  obtain ⟨machine, world, result⟩ := pass
  obtain ⟨machine', world', result'⟩ := pass'
  obtain ⟨rfl, hworld, rfl⟩ := hhandle
  split
  · exact ⟨rfl, h.mark _, rfl⟩
  · exact ⟨rfl, h, rfl⟩
  · dsimp only
    split
    · exact ⟨rfl, hworld, rfl⟩
    · split_ifs
      · exact ⟨rfl, hworld, rfl⟩
      · split
        · exact ⟨rfl, hworld, rfl⟩
        · exact ⟨rfl, hworld.mark _, rfl⟩

end Machine

namespace World

variable {w v : World}

theorem passAll_aged (h : Aged past w v) (aliases : AliasRegistry) (generation : Nat) (now : Moment)
    (e : Event) (index : Nat) (machines : List Machine) (report : Report) : AgedOut past
      (passAll ⟨aliases, past.generations + generation, now⟩ e index machines w report)
      (passAll ⟨aliases, generation, now⟩ e index machines v report) := by
  induction machines generalizing index w v report with
  | nil => exact ⟨h, rfl⟩
  | cons m rest ih =>
    have hpass := m.handle_aged aliases e now h
    have hstored := hpass.world.storeMachine generation index (m.handle aliases v e now).machine
    rw [passAll, passAll]
    dsimp only
    rw [hpass.machine, hpass.result]
    split
    · exact ih hstored _ _
    · exact ⟨hstored, rfl⟩

theorem processOne_aged (h : Aged past w v) (e : Event) : AgedOut past (w.processOne e) (v.processOne e) := by
  rw [processOne, processOne, h.book, h.generation, h.platform]
  exact passAll_aged h _ _ _ e 0 _ {}

theorem tickAll_aged (h : Aged past w v) (aliases : AliasRegistry) (generation : Nat) (now : Moment)
    (index : Nat) (machines : List Machine) (report : Report) : AgedOut past
      (tickAll ⟨aliases, past.generations + generation, now⟩ index machines w report)
      (tickAll ⟨aliases, generation, now⟩ index machines v report) := by
  induction machines generalizing index w v report with
  | nil => exact ⟨h, rfl⟩
  | cons m rest ih =>
    have hpass := m.handleTick_aged aliases now h
    have hstored := hpass.world.storeMachine generation index (m.handleTick aliases v now).machine
    rw [tickAll, tickAll]
    dsimp only
    rw [hpass.machine, hpass.result]
    split
    · exact ih hstored _ _
    · exact ih hstored _ _
    · exact ⟨hstored, rfl⟩

variable (fuel : Nat)

theorem drain_aged (h : Aged past w v) (report : Report) :
    AgedOut past (drain fuel w report) (drain fuel v report) := by
  induction fuel generalizing w v report with
  | zero => exact ⟨h, rfl⟩
  | succ fuel ih =>
    cases hpending : v.engine.pending with
    | nil =>
      rw [drain_of_empty fuel report hpending, drain_of_empty fuel report (h.pending.trans hpending)]
      exact ⟨h, rfl⟩
    | cons e rest =>
      have htaken := h.setPending rest
      obtain ⟨next, next', one, hw, hv, hworlds⟩ := (processOne_aged htaken e).eq_pairs
      rw [drain_of_cons fuel report hpending, drain_of_cons fuel report (h.pending.trans hpending), hw, hv]
      cases one with
      | ok one => exact ih hworlds _
      | error fault => exact ⟨hworlds, rfl⟩

theorem processEvent_aged (h : Aged past w v) (e : Event) :
    AgedOut past (w.processEvent fuel e) (v.processEvent fuel e) := by
  have hqueued := h.enqueue e
  cases hdraining : v.engine.draining with
  | true =>
    have hdraining' : w.engine.draining = true := h.draining.trans hdraining
    rw [processEvent, processEvent, if_pos (by simpa [Engine.enqueue] using hdraining'),
      if_pos (by simpa [Engine.enqueue] using hdraining)]
    exact ⟨hqueued, rfl⟩
  | false =>
    have hdrain := drain_aged fuel (hqueued.setDraining true) {}
    rw [processEvent_of_idle fuel e hdraining, processEvent_of_idle fuel e (h.draining.trans hdraining)]
    exact ⟨hdrain.worlds.setDraining false, hdrain.answers⟩

theorem tick_aged (h : Aged past w v) (now : Option Moment) :
    AgedOut past (w.tick fuel now) (v.tick fuel now) := by
  cases hdraining : v.engine.draining with
  | true =>
    rw [tick, tick, if_pos hdraining, if_pos (h.draining.trans hdraining)]
    exact ⟨h, rfl⟩
  | false =>
    have hstart := h.setDraining true
    have hround := tickAll_aged hstart (v.setDraining true).engine.book.aliases
      (v.setDraining true).engine.generation (now.getD (v.setDraining true).platform.now) 0
      (v.setDraining true).engine.book.machines {}
    rw [tick_of_idle fuel now hdraining, tick_of_idle fuel now (h.draining.trans hdraining)]
    dsimp only [tickRound]
    rw [hstart.book, hstart.generation, hstart.platform, hround.answers]
    split
    · exact ⟨hround.worlds.setDraining false, rfl⟩
    · have hdrain := drain_aged fuel hround.worlds
      exact ⟨(hdrain _).worlds.setDraining false, (hdrain _).answers⟩

theorem handleFromBus_aged (h : Aged past w v) (e : Event) :
    AgedOut past (w.handleFromBus fuel e) (v.handleFromBus fuel e) := by
  obtain ⟨next, next', ending, hw, hv, hworlds⟩ := (processEvent_aged fuel h e).eq_pairs
  rw [handleFromBus, handleFromBus, hw, hv]
  cases ending with
  | returned report => exact ⟨hworlds.report report, rfl⟩
  | raised fault => exact ⟨hworlds, rfl⟩
  | unsettled => exact ⟨hworlds, rfl⟩

theorem deliver_aged (h : Aged past w v) (e : Event) (subscriptions : List (EventFilter × Listener)) :
    AgedOut past ((busSystem fuel).deliver e subscriptions w)
      ((busSystem fuel).deliver e subscriptions v) := by
  induction subscriptions generalizing w v with
  | nil => exact ⟨h, rfl⟩
  | cons subscription rest ih =>
    by_cases hf : subscription.1.accepts e = true
    · have hhandle := handleFromBus_aged fuel h e
      have hanswer : (w.handleFromBus fuel e).2 = (v.handleFromBus fuel e).2 := hhandle.answers
      by_cases hescaped : (v.handleFromBus fuel e).2 = .escaped
      · rw [BusSystem.deliver_of_escaped _ hf (hanswer.trans hescaped),
          BusSystem.deliver_of_escaped _ hf hescaped]
        exact ⟨hhandle.worlds, rfl⟩
      · rw [BusSystem.deliver_of_not_escaped _ hf fun h => hescaped (hanswer.symm.trans h),
          BusSystem.deliver_of_not_escaped _ hf hescaped]
        exact ih hhandle.worlds
    · rw [BusSystem.deliver_of_not_accepts _ hf, BusSystem.deliver_of_not_accepts _ hf]
      exact ih h

theorem drainBus_aged (h : Aged past w v) (count : Nat) :
    AgedOut past ((busSystem fuel).drain count w) ((busSystem fuel).drain count v) := by
  induction count generalizing w v with
  | zero => exact ⟨h, rfl⟩
  | succ count ih =>
    have hbus : w.bus = v.bus := h.bus
    have hstop {w v : World} (h : Aged past w v) : Aged past ((busSystem fuel).setDispatching false w)
        ((busSystem fuel).setDispatching false v) := h.onBus fun bus => { bus with dispatching := false }
    cases hqueue : v.bus.queue with
    | nil =>
      have hqueue' : w.bus.queue = [] := by rw [hbus, hqueue]
      rw [BusSystem.drain_of_empty (busSystem fuel) count hqueue,
        BusSystem.drain_of_empty (busSystem fuel) count hqueue']
      exact ⟨hstop h, rfl⟩
    | cons e rest =>
      have hqueue' : w.bus.queue = e :: rest := by rw [hbus, hqueue]
      have htaken : Aged past (w.taken rest) (v.taken rest) := h.onBus fun bus => { bus with queue := rest }
      have hsubscriptions : ((busSystem fuel).bus (w.taken rest)).subscriptions = v.bus.subscriptions := by
        rw [← hbus]
        rfl
      have hdeliver := deliver_aged fuel htaken e v.bus.subscriptions
      rw [BusSystem.drain_of_cons (busSystem fuel) count hqueue,
        BusSystem.drain_of_cons (busSystem fuel) count hqueue',
        show (busSystem fuel).turn e rest w = w.taken rest from rfl,
        show (busSystem fuel).turn e rest v = v.taken rest from rfl,
        hsubscriptions,
        show ((busSystem fuel).bus (v.taken rest)).subscriptions = v.bus.subscriptions from rfl,
        hdeliver.answers]
      split
      · exact ⟨hstop hdeliver.worlds, rfl⟩
      · exact ih hdeliver.worlds

theorem publishOnBus_aged (h : Aged past w v) (e : Event) :
    AgedOut past (w.publishOnBus fuel e) (v.publishOnBus fuel e) := by
  have hmarked := h.mark (.published e)
  have hqueued := hmarked.onBus fun bus => bus.enqueue e
  have hpublish : AgedOut past ((busSystem fuel).publish fuel e (w.mark (.published e)))
      ((busSystem fuel).publish fuel e (v.mark (.published e))) := by
    have hdispatching : w.bus.dispatching = v.bus.dispatching := congrArg Bus.dispatching h.bus
    cases hv : v.bus.dispatching with
    | true =>
      have hw : w.bus.dispatching = true := hdispatching.trans hv
      rw [BusSystem.publish, BusSystem.publish, if_pos (by simpa [busSystem] using hw),
        if_pos (by simpa [busSystem] using hv)]
      exact ⟨hqueued, rfl⟩
    | false =>
      have hw : w.bus.dispatching = false := hdispatching.trans hv
      rw [BusSystem.publish, BusSystem.publish, if_neg (by simp [busSystem, hw]),
        if_neg (by simp [busSystem, hv])]
      exact drainBus_aged fuel (hqueued.onBus fun bus => { bus with dispatching := true }) fuel
  obtain ⟨next, next', ending, hw, hv, hworlds⟩ := hpublish.eq_pairs
  rw [publishOnBus, publishOnBus, hw, hv]
  cases ending with
  | settled => exact ⟨hworlds, rfl⟩
  | escaped => exact ⟨hworlds, rfl⟩
  | unsettled => exact ⟨hworlds, rfl⟩

theorem publish_aged (h : Aged past w v) (e : Event) :
    AgedOut past (w.publish fuel e) (v.publish fuel e) := by
  rw [publish, publish, h.platform]
  split
  · exact ⟨h, rfl⟩
  · exact publishOnBus_aged fuel h e

theorem updateState_aged (h : Aged past w v) (r : Reference) (x : Value) (source : String) :
    AgedOut past (w.updateState fuel r x source) (v.updateState fuel r x source) := by
  have hupdated := h.onPlatform fun p => (p.update r x source).1
  rw [updateState, updateState]
  dsimp only
  rw [h.platform] at hupdated ⊢
  exact publish_aged fuel hupdated _

theorem sendCommand_aged (h : Aged past w v) (r : Reference) (x : Value) (source : String) :
    AgedOut past (w.sendCommand fuel r x source) (v.sendCommand fuel r x source) := by
  have hsent := h.onPlatform fun p => (p.command r x source).1
  rw [h.platform] at hsent
  have hpublish := publish_aged fuel hsent (v.platform.command r x source).2
  obtain ⟨next, next', ending, hw, hv, hworlds⟩ := hpublish.eq_pairs
  rw [sendCommand, sendCommand]
  dsimp only
  rw [h.platform, hw, hv]
  have hplatform : next.platform = next'.platform := hworlds.platform
  cases ending with
  | returned _ =>
    dsimp only
    rw [hplatform]
    split
    · exact updateState_aged fuel hworlds r x source
    · exact ⟨hworlds, rfl⟩
  | raised fault => exact ⟨hworlds, rfl⟩
  | unsettled => exact ⟨hworlds, rfl⟩

end World
end Domotics
