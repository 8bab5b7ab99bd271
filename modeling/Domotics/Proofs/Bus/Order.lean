import Domotics.Proofs.Bus.Hub
import Domotics.Proofs.Bus.System
import Mathlib.Tactic.SplitIfs

/-!
The bus neither loses nor repeats events, and keeps their order. Along every run in which handlers
publish, subscribe, unsubscribe, fail and escape, the events that were published are those whose turn
has come, followed by those that wait; and apart from publications the journal is one dispatch after
the other.
-/

namespace Domotics

open BusHappening

variable {μ η : Type}

namespace Dispatch

variable {e : Event} {f : EventFilter} {h : η} {ending : HandlerEnding}
  {rest : List (EventFilter × η)} {deliveries : List (η × HandlerEnding)} {cut : Bool}

def Ends (d : Dispatch η) (cut : Bool) : Prop := if cut then d.CutOff else d.Complete

theorem Ends.nil (e : Event) : Ends (⟨e, [], []⟩ : Dispatch η) false := ⟨rfl, by simp⟩

theorem Ends.escaped (hf : f.accepts e = true) : Ends ⟨e, (f, h) :: rest, [(h, .escaped)]⟩ true :=
  ⟨[], h, rfl, by simp, by simp [wanting, hf]⟩

theorem Ends.call (hends : Ends ⟨e, rest, deliveries⟩ cut) (hf : f.accepts e = true)
    (hending : ending ≠ .escaped) : Ends ⟨e, (f, h) :: rest, (h, ending) :: deliveries⟩ cut := by
  have hwanting : wanting e ((f, h) :: rest) = h :: wanting e rest := by simp [wanting, hf]
  cases cut with
  | false =>
    obtain ⟨hall, hnone⟩ := hends
    refine ⟨?_, List.forall_mem_cons.mpr ⟨hending, hnone⟩⟩
    rw [hwanting, List.map_cons, hall]
  | true =>
    obtain ⟨before, last, hlast, hnone, hprefix⟩ := hends
    refine ⟨(h, ending) :: before, last, ?_, List.forall_mem_cons.mpr ⟨hending, hnone⟩, ?_⟩
    · exact congrArg ((h, ending) :: ·) hlast
    · rw [hwanting, List.map_cons]
      exact List.cons_prefix_cons.mpr ⟨rfl, hprefix⟩

theorem Ends.skip (hends : Ends ⟨e, rest, deliveries⟩ cut) (hf : ¬ f.accepts e = true) :
    Ends ⟨e, (f, h) :: rest, deliveries⟩ cut := by
  have hwanting : wanting e ((f, h) :: rest) = wanting e rest := by simp [wanting, hf]
  simpa only [Ends, Complete, CutOff, hwanting] using hends

end Dispatch

namespace Hub

/-- While a dispatch goes on, `s` becomes `s'`: something is added to the journal, and what was
published meanwhile joins the queue. -/
structure Adds (s s' : Hub μ η) (added : List (BusHappening η)) : Prop where
  journal : s'.journal = s.journal ++ added
  queue : s'.bus.queue = s.bus.queue ++ publishedIn added
  dispatching : s'.bus.dispatching = true

theorem Adds.refl {s : Hub μ η} (h : s.bus.dispatching = true) : s.Adds s [] :=
  ⟨by simp, by simp [publishedIn], h⟩

theorem Adds.trans {s t u : Hub μ η} {j k : List (BusHappening η)} (h₁ : s.Adds t j)
    (h₂ : t.Adds u k) : s.Adds u (j ++ k) where
  journal := by rw [h₂.journal, h₁.journal, List.append_assoc]
  queue := by rw [h₂.queue, h₁.queue, publishedIn_append, List.append_assoc]
  dispatching := h₂.dispatching

theorem Adds.log {s : Hub μ η} (h : s.bus.dispatching = true) (x : BusHappening η)
    (hx : x.published? = none) : s.Adds (s.log x) [x] where
  journal := rfl
  queue := by simp [publishedIn, hx]
  dispatching := h

/-- While `s` becomes `s'`, the events of some dispatches leave the queue at its front, and apart from
publications the journal grows by these dispatches. -/
def Serves (s s' : Hub μ η) (ds : List (Dispatch η)) : Prop :=
  ∃ added, s'.journal = s.journal ++ added ∧
    s.bus.queue ++ publishedIn added = ds.map (·.event) ++ s'.bus.queue ∧
    serviceIn added = ds.flatMap Dispatch.service

theorem Serves.refl (s : Hub μ η) : s.Serves s [] := ⟨[], by simp, by simp [publishedIn], rfl⟩

theorem Serves.trans {s t u : Hub μ η} {ds ds' : List (Dispatch η)} (h₁ : s.Serves t ds)
    (h₂ : t.Serves u ds') : s.Serves u (ds ++ ds') := by
  obtain ⟨j, hj, hqueue, hservice⟩ := h₁
  obtain ⟨k, hk, hqueue', hservice'⟩ := h₂
  refine ⟨j ++ k, by rw [hk, hj, List.append_assoc], ?_, ?_⟩
  · calc s.bus.queue ++ publishedIn (j ++ k)
        = (s.bus.queue ++ publishedIn j) ++ publishedIn k := by
          rw [publishedIn_append, List.append_assoc]
      _ = ds.map (·.event) ++ (t.bus.queue ++ publishedIn k) := by
          rw [hqueue, List.append_assoc]
      _ = (ds ++ ds').map (·.event) ++ u.bus.queue := by
          rw [hqueue', List.map_append, List.append_assoc]
  · rw [serviceIn_append, hservice, hservice', List.flatMap_append]

/-- How the dispatches of one publication end: none of them is cut off and nothing is left, or the
last is cut off. -/
def Leaves (s : Hub μ η) (ds : List (Dispatch η)) : DispatchEnding → Prop
  | .settled => s.bus.queue = [] ∧ ∀ d ∈ ds, d.Complete
  | .escaped => ∃ done d, ds = done ++ [d] ∧ (∀ x ∈ done, x.Complete) ∧ d.CutOff
  | .unsettled => True

theorem Leaves.cons {s : Hub μ η} {d : Dispatch η} {ds : List (Dispatch η)}
    {ending : DispatchEnding} (hd : d.Complete) (h : s.Leaves ds ending) :
    s.Leaves (d :: ds) ending := by
  cases ending with
  | settled => exact ⟨h.1, List.forall_mem_cons.mpr ⟨hd, h.2⟩⟩
  | escaped =>
    obtain ⟨done, last, hds, hdone, hlast⟩ := h
    exact ⟨d :: done, last, by rw [hds, List.cons_append], List.forall_mem_cons.mpr ⟨hd, hdone⟩,
      hlast⟩
  | unsettled => trivial

theorem Leaves.ends {s : Hub μ η} {ds : List (Dispatch η)} {ending : DispatchEnding}
    (h : s.Leaves ds ending) (hending : ending ≠ .unsettled) :
    ∀ d ∈ ds, d.Complete ∨ d.CutOff := by
  intro d hd
  cases ending with
  | settled => exact Or.inl (h.2 d hd)
  | escaped =>
    obtain ⟨done, last, rfl, hdone, hlast⟩ := h
    rcases List.mem_append.mp hd with hd | hd
    · exact Or.inl (hdone d hd)
    · rw [List.mem_singleton.mp hd]
      exact Or.inr hlast
  | unsettled => exact absurd rfl hending

/-- What has happened on a bus that is at rest: the dispatches `ds`. -/
structure Accounts (s : Hub μ η) (ds : List (Dispatch η)) : Prop where
  /-- The turns of events come in the order in which they were published, one turn for each
  publication, and the events that still wait are the last ones. -/
  published : publishedIn s.journal = ds.map (·.event) ++ s.bus.queue
  /-- Apart from publications the journal is one dispatch after the other. -/
  service : serviceIn s.journal = ds.flatMap Dispatch.service
  /-- A dispatch calls all who want the event, in the order of subscription, up to one that
  escapes. -/
  ends : ∀ d ∈ ds, d.Complete ∨ d.CutOff
  idle : s.bus.dispatching = false

theorem accounts_start (memory : μ) : Accounts ({ memory } : Hub μ η) [] :=
  ⟨rfl, rfl, by simp, rfl⟩

end Hub

namespace Handlers

variable [BEq η] (react : Handlers μ η)

@[simp] theorem system_bus (fuel : Nat) : (react.system fuel).bus = Hub.bus := by
  cases fuel <;> rfl

@[simp] theorem system_setBus (fuel : Nat) (b : Bus η) (s : Hub μ η) :
    (react.system fuel).setBus b s = { s with bus := b } := by
  cases fuel <;> rfl

@[simp] theorem system_note (fuel : Nat) (e : Event) (s : Hub μ η) :
    (react.system (fuel + 1)).note e s = s.log (.taken e s.bus.subscriptions) := rfl

/-- During a dispatch a publication only joins the queue, whoever makes it. -/
theorem publish_of_dispatching (n fuel : Nat) {e : Event} {s : Hub μ η}
    (h : s.bus.dispatching = true) :
    (react.system n).publish fuel e s = ({ s with bus := s.bus.enqueue e }, .settled) := by
  simp [BusSystem.publish, h]

def eventsOf : Bus.Call η → List Event
  | .publish e => [e]
  | _ => []

theorem adds_callWith (n fuel : Nat) {s : Hub μ η} (h : s.bus.dispatching = true)
    (c : Bus.Call η) :
    s.Adds (s.callWith (react.system n) fuel c).1 ((eventsOf c).map .published) := by
  cases c with
  | subscribe f handler =>
    refine ⟨by simp [Hub.callWith, eventsOf], ?_, h⟩
    simp [Hub.callWith, eventsOf, publishedIn]
  | unsubscribe handler =>
    refine ⟨by simp [Hub.callWith, eventsOf], ?_, h⟩
    simp [Hub.callWith, eventsOf, Bus.unsubscribe, publishedIn]
  | publish e =>
    have hlog : (s.log (.published e)).bus.dispatching = true := h
    simp only [Hub.callWith, publish_of_dispatching react n fuel hlog]
    exact ⟨rfl, by simp [eventsOf, publishedIn, published?], h⟩

theorem adds_callsWith (n fuel : Nat) (calls : List (Bus.Call η)) {s : Hub μ η}
    (h : s.bus.dispatching = true) :
    s.Adds (s.callsWith (react.system n) fuel calls) ((calls.flatMap eventsOf).map .published) := by
  induction calls generalizing s with
  | nil => exact Hub.Adds.refl h
  | cons c rest ih =>
    have hc := adds_callWith react n fuel h c
    have hrest := ih hc.dispatching
    rw [List.flatMap_cons, List.map_append]
    exact hc.trans hrest

/-- A handler that is called during a dispatch leaves its call and its end in the journal, with
nothing but publications between them. -/
theorem adds_handle (n : Nat) {s : Hub μ η} (h : s.bus.dispatching = true) (handler : η)
    (e : Event) :
    ∃ added, s.Adds ((react.system (n + 1)).handle handler e s).1 added ∧
      serviceIn added =
        Dispatch.delivery e (handler, ((react.system (n + 1)).handle handler e s).2) := by
  rcases hr : react handler e s.memory with ⟨memory, reaction⟩
  let start : Hub μ η := { s with memory }
  have hcalled : s.Adds (start.log (.called handler e)) [.called handler e] :=
    ⟨rfl, by simp [start, publishedIn, published?], h⟩
  have hcalls := adds_callsWith react n n reaction.calls
    hcalled.dispatching
  have hended := Hub.Adds.log hcalls.dispatching (.ended handler reaction.ending) rfl
  refine ⟨_, by simpa only [system, hr] using (hcalled.trans hcalls).trans hended, ?_⟩
  rw [serviceIn_append, serviceIn_append, serviceIn_map_published]
  simp only [Dispatch.delivery, system, hr]
  rfl

/-- A delivery to some subscribers calls those that want the event in order, up to the first that
escapes. -/
theorem adds_deliver (n : Nat) (e : Event) (subscribers : List (EventFilter × η)) {s : Hub μ η}
    (h : s.bus.dispatching = true) :
    ∃ added deliveries,
      s.Adds ((react.system (n + 1)).deliver e subscribers s).1 added ∧
      serviceIn added = deliveries.flatMap (Dispatch.delivery e) ∧
      Dispatch.Ends ⟨e, subscribers, deliveries⟩
        ((react.system (n + 1)).deliver e subscribers s).2 := by
  induction subscribers generalizing s with
  | nil => exact ⟨[], [], .refl h, rfl, .nil e⟩
  | cons subscriber rest ih =>
    obtain ⟨f, handler⟩ := subscriber
    by_cases hf : f.accepts e = true
    · obtain ⟨added, hadds, hservice⟩ := adds_handle react n h handler e
      by_cases hescaped : ((react.system (n + 1)).handle handler e s).2 = .escaped
      · rw [BusSystem.deliver_of_escaped _ hf hescaped]
        refine ⟨added, [(handler, .escaped)], hadds, ?_, .escaped hf⟩
        rw [hservice, hescaped, List.flatMap_cons, List.flatMap_nil, List.append_nil]
      · obtain ⟨later, deliveries, hlater, hlaterService, hends⟩ := ih hadds.dispatching
        rw [BusSystem.deliver_of_not_escaped _ hf hescaped]
        refine ⟨added ++ later, _ :: deliveries, hadds.trans hlater, ?_, hends.call hf hescaped⟩
        rw [serviceIn_append, hservice, hlaterService, List.flatMap_cons]
    · obtain ⟨added, deliveries, hadds, hservice, hends⟩ := ih h
      rw [BusSystem.deliver_of_not_accepts _ hf]
      exact ⟨added, deliveries, hadds, hservice, hends.skip hf⟩

theorem serves_turn (n : Nat) {s : Hub μ η} {e : Event} {rest : List Event}
    (h : s.bus.dispatching = true) (hqueue : s.bus.queue = e :: rest) :
    let start := (react.system (n + 1)).turn e rest s
    let out := (react.system (n + 1)).deliver e ((react.system (n + 1)).bus start).subscriptions start
    ∃ d : Dispatch η, s.Serves out.1 [d] ∧ d.Ends out.2 ∧ out.1.bus.dispatching = true := by
  intro start out
  obtain ⟨added, deliveries, hadds, hservice, hends⟩ :=
    adds_deliver react n e s.bus.subscriptions (show start.bus.dispatching = true from h)
  refine ⟨⟨e, s.bus.subscriptions, deliveries⟩, ?_, hends, hadds.dispatching⟩
  refine ⟨.taken e s.bus.subscriptions :: added, ?_, ?_, ?_⟩
  · rw [show out.1.journal = start.journal ++ added from hadds.journal]
    simp [start, BusSystem.turn]
  · rw [show out.1.bus.queue = start.bus.queue ++ _ from hadds.queue, hqueue]
    simp [start, BusSystem.turn]
  · rw [List.flatMap_cons, List.flatMap_nil, List.append_nil, Dispatch.service, ← hservice]
    rfl

/-- A drain serves events from the front of the queue until none is left or a handler escapes. -/
theorem serves_drain (n fuel : Nat) {s : Hub μ η} (h : s.bus.dispatching = true) :
    ∃ ds, s.Serves ((react.system (n + 1)).drain fuel s).1 ds ∧
      ((react.system (n + 1)).drain fuel s).1.Leaves ds ((react.system (n + 1)).drain fuel s).2 ∧
      (((react.system (n + 1)).drain fuel s).2 ≠ .unsettled →
        ((react.system (n + 1)).drain fuel s).1.bus.dispatching = false) := by
  induction fuel generalizing s with
  | zero => exact ⟨[], .refl s, trivial, fun hne => absurd rfl hne⟩
  | succ fuel ih =>
    cases hqueue : s.bus.queue with
    | nil =>
      refine ⟨[], ?_⟩
      simp only [BusSystem.drain, BusSystem.setDispatching, system_bus, system_setBus, hqueue]
      exact ⟨⟨[], by simp, by simp [hqueue], rfl⟩, ⟨rfl, by simp⟩, by simp⟩
    | cons e rest =>
      obtain ⟨d, hserves, hends, hdispatching⟩ := serves_turn react n h hqueue
      have hwaiting : ((react.system (n + 1)).bus s).queue = e :: rest := hqueue
      rw [BusSystem.drain_of_cons _ fuel hwaiting]
      split_ifs with hcut
      · rw [hcut] at hends
        exact ⟨[d], hserves, ⟨[], d, rfl, by simp, hends⟩, fun _ => rfl⟩
      · rw [eq_false_of_ne_true hcut] at hends
        obtain ⟨ds, hlater, hleaves, hidle⟩ := ih hdispatching
        exact ⟨d :: ds, hserves.trans hlater, hleaves.cons hends, hidle⟩

/-- A publication serves what waits before its own event. It leaves nothing behind if it settles; if
it is cut off, the events that have had no turn stay in order. -/
def ServesInTurn (react : Handlers μ η) (fuel : Nat) (s : Hub μ η) (e : Event) : Prop :=
  ∃ ds added, (react.call fuel s (.publish e)).1.journal = s.journal ++ .published e :: added ∧
    s.bus.queue ++ e :: publishedIn added =
      ds.map (·.event) ++ (react.call fuel s (.publish e)).1.bus.queue ∧
    serviceIn added = ds.flatMap Dispatch.service ∧
    (react.call fuel s (.publish e)).1.Leaves ds (react.call fuel s (.publish e)).2

theorem serves_publish {fuel : Nat} {s : Hub μ η} (h : s.bus.dispatching = false) (e : Event)
    (hending : (react.call fuel s (.publish e)).2 ≠ .unsettled) :
    ServesInTurn react fuel s e ∧ (react.call fuel s (.publish e)).1.bus.dispatching = false := by
  let start : Hub μ η := { s.log (.published e) with
    bus := { s.bus with queue := s.bus.queue ++ [e], dispatching := true } }
  have hcall : react.call fuel s (.publish e) = (react.system fuel).drain fuel start := by
    simp only [call, Hub.callWith, BusSystem.publish, BusSystem.setDispatching, system_bus,
      system_setBus, Hub.log_bus, Bus.dispatching_enqueue, h]
    rfl
  rw [ServesInTurn, hcall]
  rw [hcall] at hending
  cases fuel with
  | zero => exact absurd rfl hending
  | succ fuel =>
    obtain ⟨ds, ⟨added, hjournal, hqueue, hservice⟩, hleaves, hidle⟩ :=
      serves_drain react fuel (fuel + 1) (show start.bus.dispatching = true from rfl)
    refine ⟨⟨ds, added, ?_, ?_, hservice, hleaves⟩, hidle hending⟩
    · rw [hjournal]
      simp [start]
    · rw [← hqueue]
      simp [start]

/-- A call from outside that comes to an end adds its dispatches to the account. -/
theorem accounts_call {fuel : Nat} {s : Hub μ η} {ds : List (Dispatch η)} (h : s.Accounts ds)
    (c : Bus.Call η) (hending : (react.call fuel s c).2 ≠ .unsettled) :
    ∃ later, (react.call fuel s c).1.Accounts (ds ++ later) := by
  cases c with
  | subscribe f handler => exact ⟨[], by simpa using ⟨h.published, h.service, h.ends, h.idle⟩⟩
  | unsubscribe handler => exact ⟨[], by simpa using ⟨h.published, h.service, h.ends, h.idle⟩⟩
  | publish e =>
    obtain ⟨⟨later, added, hjournal, hqueue, hservice, hleaves⟩, hidle⟩ :=
      serves_publish react h.idle e hending
    refine ⟨later, ?_, ?_, ?_, hidle⟩
    · calc publishedIn (react.call fuel s (.publish e)).1.journal
          = ds.map (·.event) ++ (s.bus.queue ++ e :: publishedIn added) := by
            rw [hjournal, publishedIn_append, h.published, publishedIn_published,
              List.append_assoc]
        _ = (ds ++ later).map (·.event) ++ (react.call fuel s (.publish e)).1.bus.queue := by
            rw [hqueue, List.map_append, List.append_assoc]
    · rw [hjournal, serviceIn_append, serviceIn_published_cons, h.service, hservice,
        List.flatMap_append]
    · intro d hd
      rcases List.mem_append.mp hd with hd | hd
      · exact h.ends d hd
      · exact hleaves.ends hending d hd

theorem accounts_run {fuel : Nat} (calls : List (Bus.Call η)) {s : Hub μ η}
    {ds : List (Dispatch η)} (h : s.Accounts ds) (hends : .unsettled ∉ (react.run fuel s calls).2) :
    ∃ later, (react.run fuel s calls).1.Accounts (ds ++ later) := by
  induction calls generalizing s ds with
  | nil => exact ⟨[], by simpa [Handlers.run] using h⟩
  | cons c rest ih =>
    simp only [Handlers.run, List.mem_cons, not_or] at hends
    obtain ⟨first, hfirst⟩ := accounts_call react h c (Ne.symm hends.1)
    obtain ⟨later, hlater⟩ := ih hfirst hends.2
    exact ⟨first ++ later, by simpa [Handlers.run] using hlater⟩

/-- The bus keeps its order along every run that ends: whatever the handlers do, its dispatches are
those of the events that were published, in order and each once, and every further publication serves
the events in turn. -/
theorem run_keeps_order (react : Handlers μ η) (fuel : Nat) (memory : μ)
    (calls : List (Bus.Call η)) (hends : .unsettled ∉ (react.run fuel { memory } calls).2) :
    (∃ ds, (react.run fuel { memory } calls).1.Accounts ds) ∧
      ∀ e, (react.call fuel (react.run fuel { memory } calls).1 (.publish e)).2 ≠ .unsettled →
        ServesInTurn react fuel (react.run fuel { memory } calls).1 e := by
  obtain ⟨ds, hds⟩ := accounts_run react calls (Hub.accounts_start memory) hends
  exact ⟨⟨ds, hds⟩, fun e hending => (serves_publish react hds.idle e hending).1⟩

/-- Handler `0` answers a command with an update and brings in handler `2`, which escapes from updates;
handler `1` always fails. -/
def nested : Handlers Unit Nat := fun h e _ =>
  ((), match h, e.kind with
    | 0, .command => { calls := [.publish { e with kind := .update }, .subscribe {} 2] }
    | 1, _ => { ending := .failed }
    | 2, .update => { ending := .escaped }
    | _, _ => {})

def nestedCalls : List (Bus.Call Nat) :=
  [.subscribe {} 0, .subscribe {} 1, .publish { ref := none, kind := .command, time := ⟨0, none⟩ }]

theorem run_keeps_order_nested :
    .unsettled ∉ (nested.run 4 { memory := () } nestedCalls).2 ∧
    (∃ ds, (nested.run 4 { memory := () } nestedCalls).1.Accounts ds) ∧
      ∀ e, (nested.call 4 (nested.run 4 { memory := () } nestedCalls).1 (.publish e)).2 ≠
          .unsettled →
        ServesInTurn nested 4 (nested.run 4 { memory := () } nestedCalls).1 e :=
  ⟨by decide, run_keeps_order nested 4 () nestedCalls (by decide)⟩

end Handlers
end Domotics
