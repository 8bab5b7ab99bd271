import Domotics.Proofs.Run.Call

/-!
Two worlds in step. When the same calls come to both, and their engines find the same events waiting, each
delivery, each drain and each call goes the same way in both, until something happens in one of them after
which they need not be compared any more.
-/

namespace Domotics

namespace Platform

/-- What rules see of a platform, which is all but its stores and its notifications. -/
def seen (p : Platform) : Platform := { p with storage := {}, notes := #[] }

variable {p q : Platform} (r : Reference) (v : Value) (source : String)

theorem attached_of_seen (h : p.seen = q.seen) : p.attached = q.attached := by
  change p.seen.attached = q.seen.attached
  rw [h]

theorem autoupdate_of_seen (h : p.seen = q.seen) : p.autoupdate = q.autoupdate := by
  change p.seen.autoupdate = q.seen.autoupdate
  rw [h]

theorem now_of_seen (h : p.seen = q.seen) : p.now = q.now := by
  change p.seen.now = q.seen.now
  rw [h]

theorem solar_of_seen (h : p.seen = q.seen) : p.solar = q.solar := by
  change p.seen.solar = q.seen.solar
  rw [h]

theorem update_of_seen (h : p.seen = q.seen) : (p.update r v source).1.seen = (q.update r v source).1.seen ∧
    (p.update r v source).2 = (q.update r v source).2 := by
  change (p.seen.update r v source).1.seen = (q.seen.update r v source).1.seen ∧
    (p.seen.update r v source).2 = (q.seen.update r v source).2
  rw [h]
  exact ⟨rfl, rfl⟩

theorem command_of_seen (h : p.seen = q.seen) :
    (p.command r v source).1.seen = (q.command r v source).1.seen ∧
      (p.command r v source).2 = (q.command r v source).2 := by
  change (p.seen.command r v source).1.seen = (q.seen.command r v source).1.seen ∧
    (p.seen.command r v source).2 = (q.seen.command r v source).2
  rw [h]
  exact ⟨rfl, rfl⟩

end Platform

inductive Ending.Alike {α β : Type} : Ending α → Ending β → Prop where
  | returned (a : α) (b : β) : Alike (.returned a) (.returned b)
  | unsettled : Alike .unsettled .unsettled

theorem Ending.Alike.map {α β γ δ : Type} {x : Ending α} {y : Ending β} (h : x.Alike y) (f : α → γ)
    (g : β → δ) : (x.map f).Alike (y.map g) := by
  cases h with
  | returned a b => exact .returned (f a) (g b)
  | unsettled => exact .unsettled

def Result.Both {α β : Type} (x : Result α) (y : Result β) : Prop :=
  (∃ a, x = .ok a) ∧ ∃ b, y = .ok b

namespace World

/-- Two worlds with the same events on their way, and with platforms that look the same. -/
structure InStep (w v : World) : Prop where
  bus : w.bus = v.bus
  pending : w.engine.pending = v.engine.pending
  draining : w.engine.draining = v.engine.draining
  platform : w.platform.seen = v.platform.seen

structure Keeps (w w' : World) : Prop where
  book : w'.engine.book = w.engine.book
  generation : w'.engine.generation = w.engine.generation
  trail : ∃ events : List Event, w'.trail = w.trail ++ events.map .published

theorem Keeps.quiet {w w' : World} (hbook : w'.engine.book = w.engine.book)
    (hgeneration : w'.engine.generation = w.engine.generation) (htrail : w'.trail = w.trail) :
    w.Keeps w' := ⟨hbook, hgeneration, [], by simp [htrail]⟩

theorem Keeps.published {w w' : World} (e : Event) (hbook : w'.engine.book = w.engine.book)
    (hgeneration : w'.engine.generation = w.engine.generation)
    (htrail : w'.trail = w.trail ++ [.published e]) : w.Keeps w' := ⟨hbook, hgeneration, [e], htrail⟩

/-! What holds for ever once it holds in the middle of a call, holds at its end. -/

namespace Invariant

variable {P : World → Prop} (inv : Invariant P) {w : World} {e : Event}

include inv

theorem drain_of_one (fuel : Nat) {rest : List Event} (report : Report)
    (hpending : w.engine.pending = e :: rest)
    (h : P (World.processOne { w with engine := { w.engine with pending := rest } } e).1) :
    P (World.drain (fuel + 1) w report).1 := by
  rw [drain_of_cons fuel report hpending]
  dsimp only
  split
  · exact inv.feed.drain fuel _ h
  · exact h

theorem processEvent_of_drained (fuel : Nat) (hdraining : w.engine.draining = false)
    (h : P (World.drain fuel (World.setDraining { w with engine := w.engine.enqueue e } true) {}).1) :
    P (w.processEvent fuel e).1 := by
  rw [processEvent_of_idle fuel e hdraining]
  exact inv.feed.setDraining false h

theorem tick_of_round (fuel : Nat) (now : Option Moment) (hdraining : w.engine.draining = false)
    (h : P (World.tickAll ((w.setDraining true).tickRound now) 0 w.engine.book.machines
      (w.setDraining true) {}).1) : P (w.tick fuel now).1 := by
  rw [tick_of_idle fuel now hdraining]
  split
  · exact inv.feed.setDraining false h
  · exact inv.feed.setDraining false (inv.feed.drain fuel _ h)

theorem handleFromBus_of_processed (fuel : Nat) (h : P (w.processEvent fuel e).1) :
    P (w.handleFromBus fuel e).1 := by
  rw [handleFromBus_fst]
  split
  · exact inv.report _ h
  · exact h

theorem deliver_of_handled (fuel : Nat) {subscription : EventFilter × Listener}
    (rest : List (EventFilter × Listener)) (hf : subscription.1.accepts e = true)
    (h : P (w.handleFromBus fuel e).1) :
    P ((busSystem fuel).deliver e (subscription :: rest) w).1 := by
  by_cases hescaped : (w.handleFromBus fuel e).2 = .escaped
  · rwa [BusSystem.deliver_of_escaped _ hf hescaped]
  · rw [BusSystem.deliver_of_not_escaped _ hf hescaped]
    exact inv.feed.deliver fuel e (fun _ _ _ _ => trivial) h

theorem drainBus_of_delivered (fuel count : Nat) {rest : List Event} (hqueue : w.bus.queue = e :: rest)
    (h : P ((busSystem fuel).deliver e ((busSystem fuel).bus
      ((busSystem fuel).turn e rest w)).subscriptions ((busSystem fuel).turn e rest w)).1) :
    P ((busSystem fuel).drain (count + 1) w).1 := by
  rw [BusSystem.drain_of_cons (busSystem fuel) count hqueue]
  split
  · exact inv.bus _ h
  · exact inv.feed.drainBus fuel count h

theorem sendCommand_of_sent (fuel : Nat) (r : Reference) (v : Value) (source : String)
    (h : P (World.publish fuel { w with platform := (w.platform.command r v source).1 }
      (w.platform.command r v source).2).1) : P (w.sendCommand fuel r v source).1 := by
  rw [sendCommand]
  dsimp only
  split
  all_goals rename_i hout
  all_goals rw [hout] at h
  · split
    · exact inv.feed.updateState fuel r v source (inv.noted _ h)
    · exact h
  · exact h

end Invariant

section

variable (R : World → World → Prop) (lost lost' : World → Prop)

/-- Two calls after which the worlds are related and the answers too, unless one of the worlds is lost. -/
def Abreast {α β : Type} (E : α → β → Prop) (out : World × α) (out' : World × β) : Prop :=
  lost out.1 ∨ lost' out'.1 ∨ R out.1 out'.1 ∧ E out.2 out'.2

/-- A relation of worlds in step that the rounds of their rules keep, unless one of them is lost, which it
then is for ever. -/
structure Pace : Prop where
  left : Invariant lost
  right : Invariant lost'
  inStep : ∀ {w v : World}, R w v → w.InStep v
  keeps : ∀ {w w' v v' : World}, R w v → w.Keeps w' → v.Keeps v' → w'.InStep v' → R w' v'
  processOne : ∀ {w v : World} (e : Event), R w v →
    Abreast R lost lost' Result.Both (w.processOne e) (v.processOne e)
  tickAll : ∀ {w v : World} (now : Option Moment), R w v → Abreast R lost lost' Result.Both
    (World.tickAll (w.tickRound now) 0 w.engine.book.machines w {})
    (World.tickAll (v.tickRound now) 0 v.engine.book.machines v {})

end

variable {R : World → World → Prop} {lost lost' : World → Prop}

/-- What follows in both worlds, if a lost world stays so. -/
theorem Abreast.then {α β γ δ : Type} {E : α → β → Prop} {F : γ → δ → Prop}
    {out : World × α} {out' : World × β} {next : World × γ} {next' : World × δ}
    (h : Abreast R lost lost' E out out')
    (hleft : lost out.1 → lost next.1) (hright : lost' out'.1 → lost' next'.1)
    (hboth : R out.1 out'.1 → E out.2 out'.2 → Abreast R lost lost' F next next') :
    Abreast R lost lost' F next next' := by
  rcases h with hlost | hlost | ⟨hworlds, hanswers⟩
  · exact .inl (hleft hlost)
  · exact .inr (.inl (hright hlost))
  · exact hboth hworlds hanswers

theorem Abreast.of_map {β γ : Type}
    {x : World × Result β} {y : World × Result γ}
    (h : Abreast R lost lost' Result.Both (x.1, x.2.map fun _ => ()) (y.1, y.2.map fun _ => ())) :
    Abreast R lost lost' Result.Both x y := by
  have hok {β : Type} {z : Result β} (h : ∃ a, (z.map fun _ => ()) = .ok a) : ∃ a, z = .ok a := by
    cases z with
    | ok a => exact ⟨a, rfl⟩
    | error fault =>
      obtain ⟨_, h⟩ := h
      cases h
  rcases h with hlost | hlost | ⟨hworlds, hx, hy⟩
  · exact .inl hlost
  · exact .inr (.inl hlost)
  · exact .inr (.inr ⟨hworlds, hok hx, hok hy⟩)

namespace Pace

variable (pace : Pace R lost lost') {w v : World}

include pace

theorem queue (h : R w v) {pending pending' : List Event} {draining draining' : Bool}
    (hpending : pending = pending') (hdraining : draining = draining') :
    R { w with engine := { w.engine with pending, draining } }
      { v with engine := { v.engine with pending := pending', draining := draining' } } :=
  pace.keeps h (.quiet rfl rfl rfl) (.quiet rfl rfl rfl)
    ⟨(pace.inStep h).bus, hpending, hdraining, (pace.inStep h).platform⟩

theorem enqueue (e : Event) (h : R w v) :
    R { w with engine := w.engine.enqueue e } { v with engine := v.engine.enqueue e } :=
  pace.queue h (congrArg (· ++ [e]) (pace.inStep h).pending) (pace.inStep h).draining

theorem setDraining (flag : Bool) (h : R w v) : R (w.setDraining flag) (v.setDraining flag) :=
  pace.queue h (pace.inStep h).pending rfl

theorem report (r r' : Report) (h : R w v) : R (w.report r) (v.report r') :=
  pace.keeps h (.quiet rfl rfl rfl) (.quiet rfl rfl rfl) ⟨(pace.inStep h).bus, (pace.inStep h).pending,
    (pace.inStep h).draining, (pace.inStep h).platform⟩

theorem setBus {bus bus' : Bus Listener} (h : R w v) (hbus : bus = bus') :
    R { w with bus } { v with bus := bus' } :=
  pace.keeps h (.quiet rfl rfl rfl) (.quiet rfl rfl rfl)
    ⟨hbus, (pace.inStep h).pending, (pace.inStep h).draining, (pace.inStep h).platform⟩

theorem drain (fuel : Nat) (report report' : Report) (h : R w v) : Abreast R lost lost' Ending.Alike
    (World.drain fuel w report) (World.drain fuel v report') := by
  induction fuel generalizing w v report report' with
  | zero => exact .inr (.inr ⟨h, .unsettled⟩)
  | succ fuel ih =>
    have hstep := pace.inStep h
    cases hpending : w.engine.pending with
    | nil =>
      rw [drain_of_empty fuel report hpending, drain_of_empty fuel report' (hstep.pending ▸ hpending)]
      exact .inr (.inr ⟨h, .returned ..⟩)
    | cons e rest =>
      have hpending' : v.engine.pending = e :: rest := hstep.pending ▸ hpending
      have htaken : R { w with engine := { w.engine with pending := rest } }
          { v with engine := { v.engine with pending := rest } } := pace.queue h rfl hstep.draining
      refine (pace.processOne e htaken).then (pace.left.drain_of_one fuel report hpending)
        (pace.right.drain_of_one fuel report' hpending') fun hone hboth => ?_
      obtain ⟨⟨one, hresult⟩, ⟨one', hresult'⟩⟩ := hboth
      rw [drain_of_cons fuel report hpending, drain_of_cons fuel report' hpending']
      simp only [hresult, hresult']
      exact ih _ _ hone

theorem processEvent (fuel : Nat) (e : Event) (h : R w v) :
    Abreast R lost lost' Ending.Alike (w.processEvent fuel e) (v.processEvent fuel e) := by
  have hstep := pace.inStep h
  have hqueued := pace.enqueue e h
  cases hdraining : w.engine.draining with
  | true =>
    have hdraining' : v.engine.draining = true := hstep.draining ▸ hdraining
    rw [World.processEvent, World.processEvent, if_pos (by simpa [Engine.enqueue] using hdraining),
      if_pos (by simpa [Engine.enqueue] using hdraining')]
    exact .inr (.inr ⟨hqueued, .returned ..⟩)
  | false =>
    have hdraining' : v.engine.draining = false := hstep.draining ▸ hdraining
    refine (pace.drain fuel {} {} (pace.setDraining true hqueued)).then
      (pace.left.processEvent_of_drained fuel hdraining)
      (pace.right.processEvent_of_drained fuel hdraining') fun hworlds halike => ?_
    rw [processEvent_of_idle fuel e hdraining, processEvent_of_idle fuel e hdraining']
    exact .inr (.inr ⟨pace.setDraining false hworlds, halike⟩)

theorem tick (fuel : Nat) (now : Option Moment) (h : R w v) :
    Abreast R lost lost' Ending.Alike (w.tick fuel now) (v.tick fuel now) := by
  have hstep := pace.inStep h
  cases hdraining : w.engine.draining with
  | true =>
    rw [World.tick, World.tick, if_pos hdraining, if_pos (hstep.draining ▸ hdraining)]
    exact .inr (.inr ⟨h, .returned ..⟩)
  | false =>
    have hdraining' : v.engine.draining = false := hstep.draining ▸ hdraining
    refine (pace.tickAll now (pace.setDraining true h)).then (pace.left.tick_of_round fuel now hdraining)
      (pace.right.tick_of_round fuel now hdraining') fun hround hboth => ?_
    obtain ⟨⟨report, hresult⟩, ⟨report', hresult'⟩⟩ := hboth
    rw [tick_of_idle fuel now hdraining, tick_of_idle fuel now hdraining']
    simp only [hresult, hresult']
    exact (pace.drain fuel report report' hround).then
      (pace.left.feed.setDraining false) (pace.right.feed.setDraining false)
      fun hworlds halike => .inr (.inr ⟨pace.setDraining false hworlds, halike⟩)

theorem handleFromBus (fuel : Nat) (e : Event) (h : R w v) :
    Abreast R lost lost' Eq (w.handleFromBus fuel e) (v.handleFromBus fuel e) := by
  refine (pace.processEvent fuel e h).then (pace.left.handleFromBus_of_processed fuel)
    (pace.right.handleFromBus_of_processed fuel) fun hworlds halike => ?_
  rw [World.handleFromBus, World.handleFromBus]
  generalize w.processEvent fuel e = out at hworlds halike ⊢
  generalize v.processEvent fuel e = out' at hworlds halike ⊢
  obtain ⟨next, ending⟩ := out
  obtain ⟨next', ending'⟩ := out'
  cases halike with
  | returned report report' => exact .inr (.inr ⟨pace.report report report' hworlds, rfl⟩)
  | unsettled => exact .inr (.inr ⟨hworlds, rfl⟩)

theorem deliver (fuel : Nat) (e : Event) (subscriptions : List (EventFilter × Listener)) (h : R w v) :
    Abreast R lost lost' Eq ((busSystem fuel).deliver e subscriptions w)
      ((busSystem fuel).deliver e subscriptions v) := by
  induction subscriptions generalizing w v with
  | nil => exact .inr (.inr ⟨h, rfl⟩)
  | cons subscription rest ih =>
    by_cases hf : subscription.1.accepts e = true
    · refine (pace.handleFromBus fuel e h).then (pace.left.deliver_of_handled fuel rest hf)
        (pace.right.deliver_of_handled fuel rest hf) fun hworlds hsame => ?_
      by_cases hescaped : (w.handleFromBus fuel e).2 = .escaped
      · rw [BusSystem.deliver_of_escaped _ hf hescaped,
          BusSystem.deliver_of_escaped _ hf (hsame ▸ hescaped)]
        exact .inr (.inr ⟨hworlds, rfl⟩)
      · rw [BusSystem.deliver_of_not_escaped _ hf hescaped,
          BusSystem.deliver_of_not_escaped _ hf (hsame ▸ hescaped)]
        exact ih hworlds
    · rw [BusSystem.deliver_of_not_accepts _ hf, BusSystem.deliver_of_not_accepts _ hf]
      exact ih h

theorem drainBus (fuel count : Nat) (h : R w v) : Abreast R lost lost' Eq
    ((busSystem fuel).drain count w) ((busSystem fuel).drain count v) := by
  induction count generalizing w v with
  | zero => exact .inr (.inr ⟨h, rfl⟩)
  | succ count ih =>
    have hbus := (pace.inStep h).bus
    have hstop {w v : World} (h : R w v) :
        R ((busSystem fuel).setDispatching false w) ((busSystem fuel).setDispatching false v) :=
      pace.setBus h (congrArg (fun b : Bus Listener => { b with dispatching := false }) (pace.inStep h).bus)
    cases hqueue : w.bus.queue with
    | nil =>
      rw [BusSystem.drain_of_empty (busSystem fuel) count hqueue,
        BusSystem.drain_of_empty (busSystem fuel) count (show v.bus.queue = [] from hbus ▸ hqueue)]
      exact .inr (.inr ⟨hstop h, rfl⟩)
    | cons e rest =>
      have htaken : R ((busSystem fuel).turn e rest w) ((busSystem fuel).turn e rest v) :=
        pace.setBus h (congrArg (fun b : Bus Listener => { b with queue := rest }) hbus)
      have hsubscriptions : ((busSystem fuel).bus ((busSystem fuel).turn e rest w)).subscriptions =
          ((busSystem fuel).bus ((busSystem fuel).turn e rest v)).subscriptions :=
        congrArg Bus.subscriptions (pace.inStep htaken).bus
      have hqueue' : v.bus.queue = e :: rest := hbus ▸ hqueue
      have hdeliver := pace.deliver fuel e
        ((busSystem fuel).bus ((busSystem fuel).turn e rest w)).subscriptions htaken
      refine hdeliver.then (pace.left.drainBus_of_delivered fuel count hqueue) (fun hlost => ?_)
        fun hworlds hsame => ?_
      · rw [hsubscriptions] at hlost
        exact pace.right.drainBus_of_delivered fuel count hqueue' hlost
      · rw [BusSystem.drain_of_cons (busSystem fuel) count hqueue,
          BusSystem.drain_of_cons (busSystem fuel) count hqueue', ← hsubscriptions, ← hsame]
        split
        · exact .inr (.inr ⟨hstop hworlds, rfl⟩)
        · exact ih hworlds

theorem publishOnBus (fuel : Nat) (e : Event) (h : R w v) :
    Abreast R lost lost' Ending.Alike (w.publishOnBus fuel e) (v.publishOnBus fuel e) := by
  have hbus := (pace.inStep h).bus
  have hqueued : R { w.mark (.published e) with bus := w.bus.enqueue e }
      { v.mark (.published e) with bus := v.bus.enqueue e } :=
    pace.keeps h (.published e rfl rfl (mark_trail ..)) (.published e rfl rfl (mark_trail ..))
      ⟨congrArg (Bus.enqueue · e) hbus, (pace.inStep h).pending, (pace.inStep h).draining,
        (pace.inStep h).platform⟩
  have hpublish : Abreast R lost lost' Eq ((busSystem fuel).publish fuel e (w.mark (.published e)))
      ((busSystem fuel).publish fuel e (v.mark (.published e))) := by
    rw [BusSystem.publish, BusSystem.publish]
    have hdispatching : ((busSystem fuel).bus ((busSystem fuel).setBus (((busSystem fuel).bus
        (w.mark (.published e))).enqueue e) (w.mark (.published e)))).dispatching =
          ((busSystem fuel).bus ((busSystem fuel).setBus (((busSystem fuel).bus
            (v.mark (.published e))).enqueue e) (v.mark (.published e)))).dispatching :=
      congrArg Bus.dispatching (pace.inStep hqueued).bus
    rw [← hdispatching]
    split
    · exact .inr (.inr ⟨hqueued, rfl⟩)
    · exact pace.drainBus fuel fuel (pace.setBus hqueued
        (congrArg (fun b : Bus Listener => { b with dispatching := true }) (pace.inStep hqueued).bus))
  refine hpublish.then (fun hlost => ?_) (fun hlost => ?_) fun hworlds hsame => ?_
  · rwa [publishOnBus_fst]
  · rwa [publishOnBus_fst]
  · rw [World.publishOnBus, World.publishOnBus]
    generalize (busSystem fuel).publish fuel e (w.mark (.published e)) = out at hworlds hsame ⊢
    generalize (busSystem fuel).publish fuel e (v.mark (.published e)) = out' at hworlds hsame ⊢
    obtain ⟨next, ending⟩ := out
    obtain ⟨next', ending'⟩ := out'
    cases (show ending = ending' from hsame)
    cases ending with
    | settled => exact .inr (.inr ⟨hworlds, .returned ..⟩)
    | escaped => exact .inr (.inr ⟨hworlds, .unsettled⟩)
    | unsettled => exact .inr (.inr ⟨hworlds, .unsettled⟩)

theorem publish (fuel : Nat) (e : Event) (h : R w v) :
    Abreast R lost lost' Ending.Alike (w.publish fuel e) (v.publish fuel e) := by
  have hattached := Platform.attached_of_seen (pace.inStep h).platform
  rw [World.publish, World.publish, ← hattached]
  split
  · exact .inr (.inr ⟨h, .returned ..⟩)
  · exact pace.publishOnBus fuel e h

theorem setPlatform {p q : Platform} (h : R w v) (hseen : p.seen = q.seen) :
    R { w with platform := p } { v with platform := q } :=
  pace.keeps h (.quiet rfl rfl rfl) (.quiet rfl rfl rfl)
    ⟨(pace.inStep h).bus, (pace.inStep h).pending, (pace.inStep h).draining, hseen⟩

theorem updateState (fuel : Nat) (r : Reference) (x : Value) (source : String) (h : R w v) :
    Abreast R lost lost' Ending.Alike (w.updateState fuel r x source) (v.updateState fuel r x source) := by
  obtain ⟨hseen, hevent⟩ := Platform.update_of_seen r x source (pace.inStep h).platform
  have hpublish := pace.publish fuel (w.platform.update r x source).2 (pace.setPlatform h hseen)
  rw [World.updateState, World.updateState]
  dsimp only
  rwa [← hevent]

theorem sendCommand (fuel : Nat) (r : Reference) (x : Value) (source : String) (h : R w v) :
    Abreast R lost lost' Ending.Alike (w.sendCommand fuel r x source) (v.sendCommand fuel r x source) := by
  obtain ⟨hseen, hevent⟩ := Platform.command_of_seen r x source (pace.inStep h).platform
  have hpublish := pace.publish fuel (w.platform.command r x source).2 (pace.setPlatform h hseen)
  refine hpublish.then (pace.left.sendCommand_of_sent fuel r x source) (fun hlost => ?_)
    fun hworlds halike => ?_
  · rw [hevent] at hlost
    exact pace.right.sendCommand_of_sent fuel r x source hlost
  rw [World.sendCommand, World.sendCommand]
  dsimp only
  rw [← hevent]
  generalize World.publish fuel { w with platform := _ } _ = out at hworlds halike ⊢
  generalize World.publish fuel { v with platform := _ } _ = out' at hworlds halike ⊢
  obtain ⟨next, ending⟩ := out
  obtain ⟨next', ending'⟩ := out'
  cases halike with
  | returned _ _ =>
    dsimp only
    rw [← Platform.autoupdate_of_seen (pace.inStep hworlds).platform]
    split
    · exact pace.updateState fuel r x source hworlds
    · exact .inr (.inr ⟨hworlds, .returned ..⟩)
  | unsettled => exact .inr (.inr ⟨hworlds, .unsettled⟩)

theorem perform (fuel : Nat) (c : Call) (h : R w v) :
    Abreast R lost lost' Ending.Alike (w.perform fuel c) (v.perform fuel c) := by
  cases c with
  | event e =>
    exact (pace.processEvent fuel e h).then id id fun hworlds halike =>
      .inr (.inr ⟨hworlds, halike.map ..⟩)
  | publish e => exact pace.publishOnBus fuel e h
  | update r x source => exact pace.updateState fuel r x source h
  | command r x source => exact pace.sendCommand fuel r x source h
  | tick now =>
    exact (pace.tick fuel now h).then id id fun hworlds halike => .inr (.inr ⟨hworlds, halike.map ..⟩)
  | adjust p =>
    have hseen : (w.adjust p).platform.seen = (v.adjust p).platform.seen := by
      rw [adjust, adjust, Platform.attached_of_seen (pace.inStep h).platform]
    exact .inr (.inr ⟨pace.setPlatform h hseen, .returned ..⟩)

theorem run (fuel : Nat) (calls : List Call) (h : R w v) :
    lost (w.run fuel calls) ∨ lost' (v.run fuel calls) ∨ R (w.run fuel calls) (v.run fuel calls) := by
  induction calls generalizing w v with
  | nil => exact .inr (.inr h)
  | cons c rest ih =>
    rcases pace.perform fuel c h with hlost | hlost | ⟨hworlds, -⟩
    · exact .inl (pace.left.run fuel rest hlost)
    · exact .inr (.inl (pace.right.run fuel rest hlost))
    · exact ih hworlds

end Pace
end World
end Domotics
