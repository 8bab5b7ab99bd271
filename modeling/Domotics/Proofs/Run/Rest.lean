import Domotics.Proofs.Run.Call
import Domotics.Proofs.Run.Round

/-!
The engine and the bus come to rest. A call that ends leaves a world that is on its bus as it found it:
no delivery goes on, no event waits on the bus, and the engine is not at work, whatever the actions of
the rules do and whether their passes break or not.
-/

namespace Domotics.World

/-- While `w` becomes `w'`, the trail grows, and neither the bus nor the engine starts or stops. -/
structure Stays (w w' : World) : Prop where
  wired : w.Wired → w'.Wired
  dispatching : w'.bus.dispatching = w.bus.dispatching
  draining : w'.engine.draining = w.engine.draining
  trail : w.trail <+: w'.trail

namespace Stays

variable {w w' w'' : World}

theorem refl (w : World) : w.Stays w := ⟨id, rfl, rfl, List.prefix_rfl⟩

theorem trans (h₁ : w.Stays w') (h₂ : w'.Stays w'') : w.Stays w'' where
  wired hw := h₂.wired (h₁.wired hw)
  dispatching := h₂.dispatching.trans h₁.dispatching
  draining := h₂.draining.trans h₁.draining
  trail := h₁.trail.trans h₂.trail

theorem ofActs {plain : Prop} {added : List Happening} (h : w.Acts plain w' added) : w.Stays w' where
  wired := h.wired
  dispatching := h.dispatching
  draining := h.draining
  trail := by rw [h.trail]; exact List.prefix_append ..

theorem quiet (hbus : w'.bus = w.bus) (htrail : w'.trail = w.trail)
    (hattached : w'.platform.attached = w.platform.attached)
    (hdraining : w'.engine.draining = w.engine.draining) : w.Stays w' where
  wired hw := ⟨hattached ▸ hw.attached, hbus ▸ hw.subscriptions, hbus ▸ hw.queue⟩
  dispatching := by rw [hbus]
  draining := hdraining
  trail := htrail ▸ List.prefix_rfl

theorem storeMachine (w : World) (generation index : Nat) (m : Machine) :
    w.Stays (w.storeMachine generation index m) := by
  refine quiet rfl rfl rfl ?_
  unfold World.storeMachine Engine.store
  dsimp only
  split <;> rfl

theorem atWork (h : (w.setDraining true).Stays w') (hdraining : w.engine.draining = false) :
    w.Stays (w'.setDraining false) where
  wired hw := by
    have hw' := h.wired ⟨hw.attached, hw.subscriptions, hw.queue⟩
    exact ⟨hw'.attached, hw'.subscriptions, hw'.queue⟩
  dispatching := h.dispatching
  draining := hdraining.symm
  trail := h.trail

end Stays

variable (fuel : Nat) (w : World)

theorem stays_passAll (round : Round) (e : Event) (index : Nat) (machines : List Machine)
    (report : Report) : w.Stays (passAll round e index machines w report).1 := by
  induction machines generalizing index w report with
  | nil => exact .refl w
  | cons m rest ih =>
    obtain ⟨inner, hacts, _⟩ := Machine.acts_handle m round.aliases w e round.now
    have hstored := (Stays.ofActs hacts).trans (.storeMachine _ round.generation index
      (m.handle round.aliases w e round.now).machine)
    rw [passAll]
    split
    · exact hstored.trans (ih ..)
    · exact hstored

theorem stays_tickAll (round : Round) (index : Nat) (machines : List Machine) (report : Report) :
    w.Stays (tickAll round index machines w report).1 := by
  induction machines generalizing index w report with
  | nil => exact .refl w
  | cons m rest ih =>
    obtain ⟨added, hacts⟩ := Machine.acts_handleTick m round.aliases w round.now
    have hstored := (Stays.ofActs hacts).trans (.storeMachine _ round.generation index
      (m.handleTick round.aliases w round.now).machine)
    rw [tickAll]
    split
    · exact hstored.trans (ih ..)
    · exact hstored.trans (ih ..)
    · exact hstored

theorem stays_drain (report : Report) : w.Stays (drain fuel w report).1 := by
  induction fuel generalizing w report with
  | zero => exact .refl w
  | succ fuel ih =>
    cases hpending : w.engine.pending with
    | nil =>
      rw [drain_of_empty fuel report hpending]
      exact .refl w
    | cons e rest =>
      let start : World := { w with engine := { w.engine with pending := rest } }
      have hstart : w.Stays start := .quiet rfl rfl rfl rfl
      have hone : w.Stays (start.processOne e).1 := hstart.trans (stays_passAll ..)
      rw [drain_of_cons fuel report hpending]
      split
      · exact hone.trans (ih ..)
      · exact hone

theorem stays_processEvent (e : Event) : w.Stays (w.processEvent fuel e).1 := by
  let start : World := { w with engine := w.engine.enqueue e }
  have hstart : w.Stays start := .quiet rfl rfl rfl rfl
  cases hdraining : w.engine.draining with
  | true =>
    rw [processEvent, if_pos (by simpa [Engine.enqueue] using hdraining)]
    exact hstart
  | false =>
    rw [processEvent_of_idle fuel e hdraining]
    exact hstart.trans ((stays_drain fuel (start.setDraining true) {}).atWork hdraining)

theorem stays_tick (now : Option Moment) : w.Stays (w.tick fuel now).1 := by
  cases hdraining : w.engine.draining with
  | true =>
    rw [tick, if_pos hdraining]
    exact .refl w
  | false =>
    let start := w.setDraining true
    have hall := start.stays_tickAll (start.tickRound now) 0 start.engine.book.machines {}
    rw [tick_of_idle fuel now hdraining]
    split
    · exact hall.atWork hdraining
    · exact (hall.trans (stays_drain ..)).atWork hdraining

theorem stays_handleFromBus (e : Event) : w.Stays (w.handleFromBus fuel e).1 := by
  have hprocess := stays_processEvent fuel w e
  rw [handleFromBus_fst]
  split
  · exact hprocess.trans (.quiet rfl rfl rfl rfl)
  · exact hprocess

theorem stays_deliver (e : Event) (subscriptions : List (EventFilter × Listener)) :
    w.Stays ((busSystem fuel).deliver e subscriptions w).1 := by
  induction subscriptions generalizing w with
  | nil => exact .refl w
  | cons subscription rest ih =>
    have hhandle := stays_handleFromBus fuel w e
    by_cases hf : subscription.1.accepts e = true
    · by_cases hescaped : (w.handleFromBus fuel e).2 = .escaped
      · rw [BusSystem.deliver_of_escaped _ hf hescaped]
        exact hhandle
      · rw [BusSystem.deliver_of_not_escaped _ hf hescaped]
        exact hhandle.trans (ih _)
    · rw [BusSystem.deliver_of_not_accepts _ hf]
      exact ih w

/-- A world between calls from outside: on its bus, with no delivery going on and no event waiting
there, and with the engine not at work. -/
structure AtRest (w : World) : Prop where
  wired : w.Wired
  dispatching : w.bus.dispatching = false
  draining : w.engine.draining = false

variable {w}

theorem AtRest.stays {w' : World} (h : w.AtRest) (hstays : w.Stays w') : w'.AtRest where
  wired := hstays.wired h.wired
  dispatching := by rw [hstays.dispatching, h.dispatching]
  draining := by rw [hstays.draining, h.draining]

def taken (w : World) (rest : List Event) : World := { w with bus := { w.bus with queue := rest } }

theorem Wired.taken (h : w.Wired) (hdispatching : w.bus.dispatching = true) (rest : List Event) :
    (w.taken rest).Wired :=
  ⟨h.attached, h.subscriptions, by simp [World.taken, hdispatching]⟩

theorem drainBus_of_cons (count : Nat) {e : Event} {rest : List Event}
    (hqueue : w.bus.queue = e :: rest)
    (hending : ((busSystem fuel).drain (count + 1) w).2 = .settled) :
    ((busSystem fuel).deliver e w.bus.subscriptions (w.taken rest)).2 = false ∧
      (busSystem fuel).drain (count + 1) w = (busSystem fuel).drain count
        ((busSystem fuel).deliver e w.bus.subscriptions (w.taken rest)).1 := by
  rw [BusSystem.drain_of_cons (busSystem fuel) count hqueue] at hending ⊢
  rw [show (busSystem fuel).turn e rest w = w.taken rest from rfl] at hending ⊢
  rw [show ((busSystem fuel).bus (w.taken rest)).subscriptions = w.bus.subscriptions from rfl]
    at hending ⊢
  cases hcut : ((busSystem fuel).deliver e w.bus.subscriptions (w.taken rest)).2 with
  | false => exact ⟨rfl, rfl⟩
  | true =>
    rw [hcut] at hending
    cases hending

theorem atRest_drainBus (count : Nat) (hwired : w.Wired) (hdispatching : w.bus.dispatching = true)
    (hdraining : w.engine.draining = false)
    (hending : ((busSystem fuel).drain count w).2 = .settled) :
    ((busSystem fuel).drain count w).1.AtRest ∧
      w.trail <+: ((busSystem fuel).drain count w).1.trail := by
  induction count generalizing w with
  | zero => simp [BusSystem.drain] at hending
  | succ count ih =>
    cases hqueue : w.bus.queue with
    | nil =>
      rw [BusSystem.drain_of_empty (busSystem fuel) count hqueue]
      exact ⟨⟨⟨hwired.attached, hwired.subscriptions, fun _ => hqueue⟩, rfl, hdraining⟩,
        List.prefix_rfl⟩
    | cons e rest =>
      have htaken := hwired.taken hdispatching rest
      have hdeliver := stays_deliver fuel (w.taken rest) e w.bus.subscriptions
      obtain ⟨_, hnext⟩ := drainBus_of_cons fuel count hqueue hending
      rw [hnext] at hending ⊢
      obtain ⟨hrest, htrail⟩ := ih (hdeliver.wired htaken)
        (hdeliver.dispatching.trans hdispatching) (hdeliver.draining.trans hdraining) hending
      exact ⟨hrest, hdeliver.trail.trans htrail⟩

def published (w : World) (e : Event) : World :=
  { w.mark (.published e) with bus := { w.bus.enqueue e with dispatching := true } }

theorem Wired.published (h : w.Wired) (e : Event) : (w.published e).Wired :=
  ⟨h.attached, h.subscriptions, by simp [World.published]⟩

theorem publishOnBus_of_idle (e : Event) (h : w.bus.dispatching = false) :
    w.publishOnBus fuel e = match (busSystem fuel).drain fuel (w.published e) with
      | (w, .settled) => (w, .returned ())
      | (w, _) => (w, .unsettled) := by
  rw [publishOnBus, BusSystem.publish, if_neg (by simp [busSystem, h])]
  rfl

theorem drainBus_of_publishOnBus {e : Event} (h : w.bus.dispatching = false)
    (hending : (w.publishOnBus fuel e).2 ≠ .unsettled) :
    ((busSystem fuel).drain fuel (w.published e)).2 = .settled ∧
      (w.publishOnBus fuel e).1 = ((busSystem fuel).drain fuel (w.published e)).1 := by
  rw [publishOnBus_of_idle fuel e h] at hending ⊢
  rcases hdrain : (busSystem fuel).drain fuel (w.published e) with ⟨next, _ | _ | _⟩
  · exact ⟨rfl, rfl⟩
  · simp [hdrain] at hending
  · simp [hdrain] at hending

def Rests (w w' : World) : Prop := w'.AtRest ∧ w.trail <+: w'.trail

theorem Rests.trans {w' w'' : World} (h₁ : w.Rests w') (h₂ : w'.Rests w'') : w.Rests w'' :=
  ⟨h₂.1, h₁.2.trans h₂.2⟩

theorem AtRest.rests {w' : World} (h : w.AtRest) (hstays : w.Stays w') : w.Rests w' :=
  ⟨h.stays hstays, hstays.trail⟩

theorem rests_publishOnBus (h : w.AtRest) (e : Event)
    (hending : (w.publishOnBus fuel e).2 ≠ .unsettled) : w.Rests (w.publishOnBus fuel e).1 := by
  obtain ⟨hsettled, hworld⟩ := drainBus_of_publishOnBus fuel h.dispatching hending
  have hwired := h.wired.published e
  obtain ⟨hrest, htrail⟩ := atRest_drainBus fuel fuel hwired rfl h.draining hsettled
  have hgrows : w.trail <+: (w.published e).trail := by
    rw [show (w.published e).trail = w.trail ++ [.published e] from mark_trail ..]
    exact List.prefix_append ..
  rw [hworld]
  exact ⟨hrest, hgrows.trans htrail⟩

theorem rests_publish (h : w.AtRest) (e : Event) (hending : (w.publish fuel e).2 ≠ .unsettled) :
    w.Rests (w.publish fuel e).1 := by
  have hattached := h.wired.attached
  rw [publish, if_neg (by simp [hattached])] at hending ⊢
  exact rests_publishOnBus fuel h e hending

theorem rests_updateState (h : w.AtRest) (r : Reference) (v : Value) (source : String)
    (hending : (w.updateState fuel r v source).2 ≠ .unsettled) :
    w.Rests (w.updateState fuel r v source).1 := by
  let start : World := { w with platform := (w.platform.update r v source).1 }
  have hstart : w.Rests start := h.rests (.quiet rfl rfl rfl rfl)
  exact hstart.trans (rests_publish fuel hstart.1 _ hending)

theorem publish_ends (w : World) (e : Event) :
    (w.publish fuel e).2 = .returned () ∨ (w.publish fuel e).2 = .unsettled := by
  rw [publish]
  split
  · exact .inl rfl
  · rw [publishOnBus]
    split
    · exact .inl rfl
    · exact .inr rfl

/-- A command that ends is published, and then sets the state if the platform does so. -/
theorem sendCommand_of_ends (r : Reference) (v : Value) (source : String)
    (hending : (w.sendCommand fuel r v source).2 ≠ .unsettled) :
    let start : World := { w with platform := (w.platform.command r v source).1 }
    let sent := start.publish fuel (w.platform.command r v source).2
    sent.2 ≠ .unsettled ∧ w.sendCommand fuel r v source =
      if sent.1.platform.autoupdate then sent.1.updateState fuel r v source
      else (sent.1, .returned ()) := by
  intro start sent
  have hsent : sent.2 = .returned () ∨ sent.2 = .unsettled := publish_ends fuel start _
  rw [sendCommand] at hending ⊢
  simp only at hending ⊢
  split at hending
  · next next hout =>
    rw [show sent = (next, .returned ()) from hout]
    exact ⟨by simp, rfl⟩
  · next next ending hne hout =>
    rw [show sent = (next, ending) from hout] at hsent
    rcases hsent with hreturned | hunsettled
    · exact absurd hreturned hne
    · exact absurd hunsettled hending

theorem rests_sendCommand (h : w.AtRest) (r : Reference) (v : Value) (source : String)
    (hending : (w.sendCommand fuel r v source).2 ≠ .unsettled) :
    w.Rests (w.sendCommand fuel r v source).1 := by
  let start : World := { w with platform := (w.platform.command r v source).1 }
  have hstart : w.Rests start := h.rests (.quiet rfl rfl rfl rfl)
  obtain ⟨hsent, heq⟩ := sendCommand_of_ends fuel r v source hending
  have hrests := hstart.trans (rests_publish fuel hstart.1 _ hsent)
  rw [heq] at hending ⊢
  split_ifs at hending ⊢
  · exact hrests.trans (rests_updateState fuel hrests.1 r v source hending)
  · exact hrests

/-- A call from outside that ends leaves the world at rest. -/
theorem rests_perform (h : w.AtRest) (c : Call) (hending : (w.perform fuel c).2 ≠ .unsettled) :
    w.Rests (w.perform fuel c).1 := by
  cases c with
  | event e => exact h.rests (stays_processEvent fuel w e)
  | publish e => exact rests_publishOnBus fuel h e hending
  | update r v source => exact rests_updateState fuel h r v source hending
  | command r v source => exact rests_sendCommand fuel h r v source hending
  | tick now => exact h.rests (stays_tick fuel w now)
  | adjust p => exact h.rests (.quiet rfl rfl rfl rfl)

theorem draining_drainBus (count : Nat) :
    ((busSystem fuel).drain count w).1.engine.draining = w.engine.draining := by
  induction count generalizing w with
  | zero => rfl
  | succ count ih =>
    cases hqueue : w.bus.queue with
    | nil => rw [BusSystem.drain_of_empty (busSystem fuel) count hqueue]; rfl
    | cons e rest =>
      have hdeliver := (stays_deliver fuel (w.taken rest) e w.bus.subscriptions).draining
      rw [BusSystem.drain_of_cons (busSystem fuel) count hqueue]
      split
      · exact hdeliver
      · exact ih.trans hdeliver

theorem draining_publishOnBus (e : Event) :
    (w.publishOnBus fuel e).1.engine.draining = w.engine.draining := by
  rw [publishOnBus_fst, BusSystem.publish]
  split
  · rfl
  · exact draining_drainBus fuel fuel

theorem draining_publish (e : Event) :
    (w.publish fuel e).1.engine.draining = w.engine.draining := by
  rw [publish]
  split
  · rfl
  · exact draining_publishOnBus fuel e

theorem draining_sendCommand (r : Reference) (v : Value) (source : String) :
    (w.sendCommand fuel r v source).1.engine.draining = w.engine.draining := by
  have hsent := draining_publish (w := { w with platform := (w.platform.command r v source).1 }) fuel
    (w.platform.command r v source).2
  simp only [sendCommand]
  split
  all_goals rename_i hr
  all_goals rw [hr] at hsent
  · split
    · exact (draining_publish fuel _).trans hsent
    · exact hsent
  · exact hsent

/-- Between calls from outside the engine is at work only if it was so before, however they end. -/
theorem draining_perform (c : Call) : (w.perform fuel c).1.engine.draining = w.engine.draining := by
  cases c with
  | event e => exact (stays_processEvent fuel w e).draining
  | publish e => exact draining_publishOnBus fuel e
  | update r v source => exact draining_publish fuel _
  | command r v source => exact draining_sendCommand fuel r v source
  | tick now => exact (stays_tick fuel w now).draining
  | adjust p => rfl

theorem draining_run (calls : List Call) : (w.run fuel calls).engine.draining = w.engine.draining := by
  induction calls generalizing w with
  | nil => rfl
  | cons c rest ih => exact ih.trans (draining_perform fuel c)

end Domotics.World
