import Domotics.Bus

/-!
A bus among handlers that call it back. A handler answers an event with calls on the same bus and
then ends in one of three ways; what it does may depend on everything that the handlers have seen so
far. A journal keeps what happens on the bus in the order of time.
-/

namespace Domotics

inductive Bus.Call (η : Type) where
  | subscribe (f : EventFilter) (h : η)
  | unsubscribe (h : η)
  | publish (e : Event)

/-- What a handler does with an event: calls on the bus one after the other, and an ending. -/
structure Reaction (η : Type) where
  calls : List (Bus.Call η) := []
  ending : HandlerEnding := .done

/-- The reactions of all handlers. They share a memory. -/
abbrev Handlers (μ η : Type) := η → Event → μ → μ × Reaction η

/-- What happens on a bus: an event is published, its turn comes while some are subscribed, a handler
is called with an event, and the handler ends. -/
inductive BusHappening (η : Type) where
  | published (e : Event)
  | taken (e : Event) (subscribers : List (EventFilter × η))
  | called (h : η) (e : Event)
  | ended (h : η) (how : HandlerEnding)

/-- A bus, the memory of its handlers, and what has happened. -/
structure Hub (μ η : Type) where
  bus : Bus η := {}
  memory : μ
  journal : List (BusHappening η) := []

namespace BusHappening

variable {η : Type}

def published? : BusHappening η → Option Event
  | published e => some e
  | _ => none

def isService : BusHappening η → Bool
  | published _ => false
  | _ => true

def publishedIn (journal : List (BusHappening η)) : List Event := journal.filterMap published?

def serviceIn (journal : List (BusHappening η)) : List (BusHappening η) := journal.filter isService

@[simp] theorem publishedIn_nil : publishedIn ([] : List (BusHappening η)) = [] := rfl

@[simp] theorem publishedIn_published (e : Event) (j : List (BusHappening η)) :
    publishedIn (published e :: j) = e :: publishedIn j := rfl

@[simp] theorem publishedIn_taken (e : Event) (subscribers : List (EventFilter × η))
    (j : List (BusHappening η)) : publishedIn (taken e subscribers :: j) = publishedIn j := rfl

@[simp] theorem publishedIn_append (j k : List (BusHappening η)) :
    publishedIn (j ++ k) = publishedIn j ++ publishedIn k := List.filterMap_append

@[simp] theorem serviceIn_published_cons (e : Event) (j : List (BusHappening η)) :
    serviceIn (published e :: j) = serviceIn j := rfl

@[simp] theorem serviceIn_append (j k : List (BusHappening η)) :
    serviceIn (j ++ k) = serviceIn j ++ serviceIn k := List.filter_append ..

@[simp] theorem serviceIn_map_published (events : List Event) :
    serviceIn (events.map (published : Event → BusHappening η)) = [] := by
  simp [serviceIn, isService]

end BusHappening

namespace Hub

variable {μ η : Type}

def log (s : Hub μ η) (x : BusHappening η) : Hub μ η := { s with journal := s.journal ++ [x] }

@[simp] theorem log_bus (s : Hub μ η) (x : BusHappening η) : (s.log x).bus = s.bus := rfl

@[simp] theorem log_journal (s : Hub μ η) (x : BusHappening η) :
    (s.log x).journal = s.journal ++ [x] := rfl

variable [BEq η]

def callWith (sys : BusSystem (Hub μ η) η) (fuel : Nat) (s : Hub μ η) :
    Bus.Call η → Hub μ η × DispatchEnding
  | .subscribe f h => ({ s with bus := s.bus.subscribe f h }, .settled)
  | .unsubscribe h => ({ s with bus := s.bus.unsubscribe h }, .settled)
  | .publish e => sys.publish fuel e (s.log (.published e))

def callsWith (sys : BusSystem (Hub μ η) η) (fuel : Nat) (s : Hub μ η) (calls : List (Bus.Call η)) :
    Hub μ η := calls.foldl (fun s c => (callWith sys fuel s c).1) s

end Hub

namespace Handlers

variable {μ η : Type} [BEq η] (react : Handlers μ η)

/-- The system around a hub. A handler calls the bus as anybody does; `fuel` bounds how deeply calls
may nest. -/
def system : Nat → BusSystem (Hub μ η) η
  | 0 => { bus := Hub.bus, setBus := fun bus s => { s with bus }, handle := fun _ _ s => (s, .done) }
  | fuel + 1 => {
      bus := Hub.bus
      setBus := fun bus s => { s with bus }
      note := fun e s => s.log (.taken e s.bus.subscriptions)
      handle := fun h e s =>
        let (memory, reaction) := react h e s.memory
        let s := ({ s with memory }.log (.called h e)).callsWith (system fuel) fuel reaction.calls
        (s.log (.ended h reaction.ending), reaction.ending) }

def call (fuel : Nat) (s : Hub μ η) (c : Bus.Call η) : Hub μ η × DispatchEnding :=
  s.callWith (react.system fuel) fuel c

def run (fuel : Nat) : Hub μ η → List (Bus.Call η) → Hub μ η × List DispatchEnding
  | s, [] => (s, [])
  | s, c :: rest =>
    let (s, ending) := react.call fuel s c
    let (s, endings) := run fuel s rest
    (s, ending :: endings)

end Handlers

/-- An event whose turn has come, those who are subscribed at that time, and the handlers that are
called with it and how they end. -/
structure Dispatch (η : Type) where
  event : Event
  subscribers : List (EventFilter × η)
  deliveries : List (η × HandlerEnding)

namespace Dispatch

variable {η : Type}

/-- The handlers of those subscribers that want an event. One that has subscribed twice counts twice. -/
def wanting (e : Event) (subscribers : List (EventFilter × η)) : List η :=
  (subscribers.filter (·.1.accepts e)).map (·.2)

def delivery (e : Event) (x : η × HandlerEnding) : List (BusHappening η) :=
  [.called x.1 e, .ended x.1 x.2]

def service (d : Dispatch η) : List (BusHappening η) :=
  .taken d.event d.subscribers :: d.deliveries.flatMap (delivery d.event)

/-- Every handler that wants the event is called with it, in the order of subscription. -/
def Complete (d : Dispatch η) : Prop :=
  d.deliveries.map (·.1) = wanting d.event d.subscribers ∧ ∀ x ∈ d.deliveries, x.2 ≠ .escaped

/-- The last handler that is called escapes, and those after it are not called. -/
def CutOff (d : Dispatch η) : Prop :=
  ∃ before h, d.deliveries = before ++ [(h, .escaped)] ∧ (∀ x ∈ before, x.2 ≠ .escaped) ∧
    d.deliveries.map (·.1) <+: wanting d.event d.subscribers

end Dispatch
end Domotics
