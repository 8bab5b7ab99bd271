import Domotics.Event

/-!
The event bus. Published events wait in a queue; one after the other each is delivered to every
subscriber whose filter it matches. What handlers publish during a delivery waits behind the events
that wait already, so deliveries never interleave.
-/

namespace Domotics

/-- Which events a subscriber wants; no kinds stand for all kinds. -/
structure EventFilter where
  ref : Option Reference := none
  kinds : List EventKind := []
deriving DecidableEq, Inhabited, Repr

def EventFilter.accepts (f : EventFilter) (e : Event) : Bool :=
  (f.kinds.isEmpty || f.kinds.contains e.kind) && (f.ref.isNone || e.ref == f.ref)

/-- The subscribers of a bus, the events that wait, and whether one is being delivered. -/
structure Bus (η : Type) where
  subscriptions : List (EventFilter × η) := []
  queue : List Event := []
  dispatching : Bool := false
deriving Inhabited, Repr

/-- How the call of a handler ends: in order, with a failure of its own, which concerns nobody else,
or with one that ends the delivery. -/
inductive HandlerEnding where
  | done | failed | escaped
deriving DecidableEq, Inhabited, Repr

/-- How a publication ends: with an empty queue, with an escaping failure, or not within the number
of deliveries that it was given. -/
inductive DispatchEnding where
  | settled | escaped | unsettled
deriving DecidableEq, Inhabited, Repr

namespace Bus

variable {η : Type}

def subscribe (b : Bus η) (f : EventFilter) (h : η) : Bus η :=
  { b with subscriptions := b.subscriptions ++ [(f, h)] }

def unsubscribe [BEq η] (b : Bus η) (h : η) : Bus η :=
  { b with subscriptions := b.subscriptions.filter (·.2 != h) }

def enqueue (b : Bus η) (e : Event) : Bus η := { b with queue := b.queue ++ [e] }

@[simp] theorem queue_enqueue (b : Bus η) (e : Event) : (b.enqueue e).queue = b.queue ++ [e] := rfl

@[simp] theorem subscriptions_enqueue (b : Bus η) (e : Event) :
    (b.enqueue e).subscriptions = b.subscriptions := rfl

@[simp] theorem dispatching_enqueue (b : Bus η) (e : Event) :
    (b.enqueue e).dispatching = b.dispatching := rfl

@[simp] theorem queue_subscribe (b : Bus η) (f : EventFilter) (h : η) :
    (b.subscribe f h).queue = b.queue := rfl

end Bus

/-- A system with a bus in its state, what its handlers do, and what it notes when the turn of an
event comes. -/
structure BusSystem (σ η : Type) where
  bus : σ → Bus η
  setBus : Bus η → σ → σ
  handle : η → Event → σ → σ × HandlerEnding
  note : Event → σ → σ := fun _ s => s

namespace BusSystem

variable {σ η : Type} (sys : BusSystem σ η)

/-- Delivers an event to those of some subscribers that want it. An escaping failure cuts off the
subscribers after it. -/
def deliver (e : Event) : List (EventFilter × η) → σ → σ × Bool
  | [], s => (s, false)
  | (f, h) :: rest, s =>
    if f.accepts e then
      match sys.handle h e s with
      | (s, .escaped) => (s, true)
      | (s, _) => deliver e rest s
    else deliver e rest s

def setDispatching (flag : Bool) (s : σ) : σ :=
  sys.setBus { sys.bus s with dispatching := flag } s

/-- Delivers the events that wait, at most `fuel` of them. -/
def drain : Nat → σ → σ × DispatchEnding
  | 0, s => (s, .unsettled)
  | fuel + 1, s =>
    match (sys.bus s).queue with
    | [] => (sys.setDispatching false s, .settled)
    | e :: rest =>
      let s := sys.note e (sys.setBus { sys.bus s with queue := rest } s)
      match sys.deliver e (sys.bus s).subscriptions s with
      | (s, true) => (sys.setDispatching false s, .escaped)
      | (s, false) => drain fuel s

/-- Publishes an event. During a delivery it only joins the queue. -/
def publish (fuel : Nat) (e : Event) (s : σ) : σ × DispatchEnding :=
  let s := sys.setBus ((sys.bus s).enqueue e) s
  if (sys.bus s).dispatching then (s, .settled)
  else sys.drain fuel (sys.setDispatching true s)

end BusSystem
end Domotics
