import Domotics.Engine.Process
import Domotics.Proofs.Bus.System

/-!
Runs of a world: calls from outside, one after the other. What holds of a world whatever its bus, its
platform and its queue are, and is kept by every round of the rules, is kept by every run.
-/

namespace Domotics

def Ending.settles {α : Type} : Ending α → Bool
  | unsettled => false
  | _ => true

theorem Ending.settles_iff {α : Type} {ending : Ending α} : ending.settles = true ↔ ending ≠ .unsettled := by
  cases ending <;> simp [settles]

theorem Ending.settles_map {α β : Type} (f : α → β) (ending : Ending α) : (ending.map f).settles = ending.settles := by
  cases ending <;> rfl

/-- A call on a world from outside: an event for the engine, an event, an update or a command for the
bus, a tick, or a change of the platform. -/
inductive World.Call where
  | event (e : Event)
  | publish (e : Event)
  | update (r : Reference) (v : Value) (source : String)
  | command (r : Reference) (v : Value) (source : String)
  | tick (now : Option Moment)
  | adjust (p : Platform)

def World.Call.viaBus : World.Call → Bool
  | event _ => false
  | _ => true

namespace World

/-- Replaces the clock, the states, the catalog and all else of the platform, which stays attached or
not as it is. -/
def adjust (w : World) (p : Platform) : World :=
  { w with platform := { p with attached := w.platform.attached } }

def perform (fuel : Nat) (w : World) : Call → World × Ending Unit
  | .event e => match w.processEvent fuel e with | (w, ending) => (w, ending.map fun _ => ())
  | .publish e => w.publishOnBus fuel e
  | .update r v source => w.updateState fuel r v source
  | .command r v source => w.sendCommand fuel r v source
  | .tick now => match w.tick fuel now with | (w, ending) => (w, ending.map fun _ => ())
  | .adjust p => (w.adjust p, .returned ())

def run (fuel : Nat) (w : World) (calls : List Call) : World :=
  calls.foldl (fun w c => (w.perform fuel c).1) w

def tickRound (w : World) (now : Option Moment) : Round :=
  ⟨w.engine.book.aliases, w.engine.generation, now.getD w.platform.now⟩

section

variable {w : World} (fuel : Nat)

theorem drain_of_empty (report : Report) (h : w.engine.pending = []) :
    drain (fuel + 1) w report = (w, .returned report) := by
  rw [drain, h]

theorem drain_of_cons {e : Event} {rest : List Event} (report : Report)
    (h : w.engine.pending = e :: rest) :
    let out := processOne { w with engine := { w.engine with pending := rest } } e
    drain (fuel + 1) w report = match out.2 with
      | .ok one => drain fuel out.1 (report.merge one)
      | .error fault => (out.1, .raised fault) := by
  rw [drain, h]
  simp only
  rcases processOne { w with engine := { w.engine with pending := rest } } e with
    ⟨next, fault | one⟩ <;> rfl

theorem processEvent_of_idle (e : Event) (h : w.engine.draining = false) :
    let out := drain fuel (World.setDraining { w with engine := w.engine.enqueue e } true) {}
    w.processEvent fuel e = (out.1.setDraining false, out.2) := by
  intro out
  rw [processEvent, if_neg (by simp [Engine.enqueue, h])]

theorem tick_of_idle (now : Option Moment) (h : w.engine.draining = false) :
    let start := w.setDraining true
    let out := tickAll (start.tickRound now) 0 start.engine.book.machines start {}
    w.tick fuel now = match out.2 with
      | .error fault => (out.1.setDraining false, .raised fault)
      | .ok report =>
        ((drain fuel out.1 report).1.setDraining false, (drain fuel out.1 report).2) := by
  intro start out
  rw [tick, if_neg (by simp [h])]
  simp only
  split
  · next next fault hout => rw [show out = (next, .error fault) from hout]
  · next next report hout => rw [show out = (next, .ok report) from hout]

theorem handleFromBus_fst (e : Event) :
    (w.handleFromBus fuel e).1 = match (w.processEvent fuel e).2 with
      | .returned report => (w.processEvent fuel e).1.report report
      | _ => (w.processEvent fuel e).1 := by
  rw [handleFromBus]
  split
  all_goals rename_i hr
  all_goals rw [hr]

theorem publishOnBus_fst (e : Event) :
    (w.publishOnBus fuel e).1 = ((busSystem fuel).publish fuel e (w.mark (.published e))).1 := by
  rw [publishOnBus]
  split
  all_goals rename_i hr
  all_goals rw [hr]

end

def noted (w : World) (done : Platform × Event) : World :=
  if w.platform.attached then { w with platform := done.1 }.mark (.published done.2)
  else { w with platform := done.1 }

/-- A property of worlds that has nothing to do with the bus and the events that wait, and that updates
and commands of devices keep. -/
structure DeviceLaw (P : World → Prop) : Prop where
  bus : ∀ {w : World} (bus : Bus Listener), P w → P { w with bus }
  queue : ∀ {w : World} (pending : List Event) (draining : Bool), P w →
    P { w with engine := { w.engine with pending, draining } }
  report : ∀ {w : World} (r : Report), P w → P (w.report r)
  update : ∀ {w : World} (r : Reference) (v : Value) (source : String), P w →
    P (w.noted (w.platform.update r v source))
  command : ∀ {w : World} (r : Reference) (v : Value) (source : String), P w →
    P (w.noted (w.platform.command r v source))

/-- A property of worlds that events keep on their way over the bus and through the engine, if only some
events reach the engine. -/
structure Feed (ok : Event → Prop) (P : World → Prop) : Prop where
  bus : ∀ {w : World} (queue : List Event) (dispatching : Bool), P w →
    P { w with bus := { w.bus with queue, dispatching } }
  wanted : ∀ {w : World}, P w → ∀ s ∈ w.bus.subscriptions, ∀ e, s.1.accepts e = true → ok e
  enqueue : ∀ {w : World} {e : Event}, ok e → P w → P { w with engine := w.engine.enqueue e }
  setDraining : ∀ {w : World} (flag : Bool), P w → P (w.setDraining flag)
  report : ∀ {w : World} (r : Report), P w → P (w.report r)
  processNext : ∀ {w : World} {e : Event} {rest : List Event}, w.engine.pending = e :: rest → P w →
    P (World.processOne { w with engine := { w.engine with pending := rest } } e).1

namespace Feed

variable {ok : Event → Prop} {P : World → Prop} (feed : Feed ok P) {w : World}

include feed

theorem drain (fuel : Nat) (report : Report) (h : P w) : P (World.drain fuel w report).1 := by
  induction fuel generalizing w report with
  | zero => exact h
  | succ fuel ih =>
    cases hpending : w.engine.pending with
    | nil => rwa [drain_of_empty fuel report hpending]
    | cons e rest =>
      have hone := feed.processNext hpending h
      rw [drain_of_cons fuel report hpending]
      split
      · exact ih _ hone
      · exact hone

theorem processEvent (fuel : Nat) {e : Event} (hok : ok e) (h : P w) :
    P (w.processEvent fuel e).1 := by
  have henqueued := feed.enqueue hok h
  cases hdraining : w.engine.draining with
  | true => rwa [World.processEvent, if_pos (by simpa [Engine.enqueue] using hdraining)]
  | false =>
    rw [processEvent_of_idle fuel e hdraining]
    exact feed.setDraining false (feed.drain fuel {} (feed.setDraining true henqueued))

theorem tick (fuel : Nat) (now : Option Moment) (h : P w)
    (hall : P (World.tickAll ((w.setDraining true).tickRound now) 0
      (w.setDraining true).engine.book.machines (w.setDraining true) {}).1) :
    P (w.tick fuel now).1 := by
  cases hdraining : w.engine.draining with
  | true => rwa [World.tick, if_pos hdraining]
  | false =>
    rw [tick_of_idle fuel now hdraining]
    split
    · exact feed.setDraining false hall
    · exact feed.setDraining false (feed.drain fuel _ hall)

theorem handleFromBus (fuel : Nat) {e : Event} (hok : ok e) (h : P w) :
    P (w.handleFromBus fuel e).1 := by
  rw [handleFromBus_fst]
  split
  · exact feed.report _ (feed.processEvent fuel hok h)
  · exact feed.processEvent fuel hok h

theorem deliver (fuel : Nat) (e : Event) {subscriptions : List (EventFilter × Listener)}
    (hwanted : ∀ s ∈ subscriptions, ∀ e, s.1.accepts e = true → ok e) (h : P w) :
    P ((busSystem fuel).deliver e subscriptions w).1 := by
  induction subscriptions generalizing w with
  | nil => exact h
  | cons subscription rest ih =>
    obtain ⟨hfirst, hrest⟩ := List.forall_mem_cons.mp hwanted
    by_cases hf : subscription.1.accepts e = true
    · have hhandle := feed.handleFromBus fuel (hfirst e hf) h
      by_cases hescaped : (w.handleFromBus fuel e).2 = .escaped
      · rwa [BusSystem.deliver_of_escaped _ hf hescaped]
      · rw [BusSystem.deliver_of_not_escaped _ hf hescaped]
        exact ih hrest hhandle
    · rw [BusSystem.deliver_of_not_accepts _ hf]
      exact ih hrest h

theorem drainBus (fuel count : Nat) (h : P w) : P ((busSystem fuel).drain count w).1 := by
  induction count generalizing w with
  | zero => exact h
  | succ count ih =>
    cases hqueue : w.bus.queue with
    | nil =>
      rw [BusSystem.drain_of_empty (busSystem fuel) count hqueue]
      exact feed.bus w.bus.queue false h
    | cons e rest =>
      have hdeliver := feed.deliver fuel e (feed.wanted h) (feed.bus rest w.bus.dispatching h)
      rw [BusSystem.drain_of_cons (busSystem fuel) count hqueue]
      split
      · exact feed.bus _ false hdeliver
      · exact ih hdeliver

theorem publishOnBus (fuel : Nat) (e : Event) (h : P (w.mark (.published e))) :
    P (w.publishOnBus fuel e).1 := by
  have henqueued := feed.bus (w.bus.queue ++ [e]) w.bus.dispatching h
  rw [publishOnBus_fst, BusSystem.publish]
  split
  · exact henqueued
  · exact feed.drainBus fuel fuel (feed.bus (w.bus.queue ++ [e]) true henqueued)

theorem publish (fuel : Nat) (done : Platform × Event)
    (hattached : done.1.attached = w.platform.attached) (h : P (w.noted done)) :
    P (World.publish fuel { w with platform := done.1 } done.2).1 := by
  rw [noted] at h
  rw [World.publish]
  cases hon : w.platform.attached with
  | true =>
    rw [if_pos hon] at h
    rw [if_neg (by simp [hattached, hon])]
    exact feed.publishOnBus fuel _ h
  | false =>
    rw [if_neg (by simp [hon])] at h
    rwa [if_pos (by simp [hattached, hon])]

theorem updateState (fuel : Nat) (r : Reference) (v : Value) (source : String)
    (h : P (w.noted (w.platform.update r v source))) : P (w.updateState fuel r v source).1 :=
  feed.publish fuel (w.platform.update r v source) rfl h

theorem sendCommand (fuel : Nat) (r : Reference) (v : Value) (source : String)
    (h : P (w.noted (w.platform.command r v source)))
    (hupdate : ∀ {w : World}, P w → P (w.noted (w.platform.update r v source))) :
    P (w.sendCommand fuel r v source).1 := by
  have hpublish := feed.publish fuel (w.platform.command r v source) rfl h
  simp only [World.sendCommand]
  split
  all_goals rename_i hr
  all_goals rw [hr] at hpublish
  · split
    · exact feed.updateState fuel r v source (hupdate hpublish)
    · exact hpublish
  · exact hpublish

end Feed

/-- A property of worlds that has nothing to do with the bus and the events that wait, and that every
round of the rules over an event keeps. -/
structure Law (P : World → Prop) : Prop where
  bus : ∀ {w : World} (bus : Bus Listener), P w → P { w with bus }
  queue : ∀ {w : World} (pending : List Event) (draining : Bool), P w →
    P { w with engine := { w.engine with pending, draining } }
  report : ∀ {w : World} (r : Report), P w → P (w.report r)
  processOne : ∀ {w : World} (e : Event), P w → P (w.processOne e).1

theorem Law.feed {P : World → Prop} (law : Law P) : Feed (fun _ => True) P where
  bus _ _ h := law.bus _ h
  wanted _ _ _ _ _ := trivial
  enqueue _ h := law.queue _ _ h
  setDraining _ h := law.queue _ _ h
  report r h := law.report r h
  processNext _ h := law.processOne _ (law.queue _ _ h)

/-- A property of worlds that has nothing to do with the bus, the platform and the events that wait,
and that every round of the rules keeps. -/
structure Invariant (P : World → Prop) : Prop extends Law P where
  platform : ∀ {w : World} (platform : Platform), P w → P { w with platform }
  published : ∀ {w : World} (e : Event), P w → P (w.mark (.published e))
  tickAll : ∀ {w : World} (now : Option Moment), P w →
    P (World.tickAll (w.tickRound now) 0 w.engine.book.machines w {}).1

namespace Invariant

variable {P : World → Prop} (inv : Invariant P) {w : World}

include inv

theorem tick (fuel : Nat) (now : Option Moment) (h : P w) : P (w.tick fuel now).1 :=
  inv.feed.tick fuel now h (inv.tickAll now (inv.feed.setDraining true h))

theorem publishOnBus (fuel : Nat) (e : Event) (h : P w) : P (w.publishOnBus fuel e).1 :=
  inv.feed.publishOnBus fuel e (inv.published e h)

theorem noted (done : Platform × Event) (h : P w) : P (w.noted done) := by
  rw [World.noted]
  split
  · exact inv.published _ (inv.platform _ h)
  · exact inv.platform _ h

theorem perform (fuel : Nat) (c : Call) (h : P w) : P (w.perform fuel c).1 := by
  cases c with
  | event e => exact inv.feed.processEvent fuel trivial h
  | publish e => exact inv.publishOnBus fuel e h
  | update r v source => exact inv.feed.updateState fuel r v source (inv.noted _ h)
  | command r v source =>
    exact inv.feed.sendCommand fuel r v source (inv.noted _ h) fun h => inv.noted _ h
  | tick now => exact inv.tick fuel now h
  | adjust p => exact inv.platform _ h

/-- A run keeps the property. -/
theorem run (fuel : Nat) (calls : List Call) (h : P w) : P (w.run fuel calls) := by
  induction calls generalizing w with
  | nil => exact h
  | cons c rest ih => exact ih (inv.perform fuel c h)

end Invariant
end World
end Domotics
