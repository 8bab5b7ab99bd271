import Domotics.Engine.Pass
import Domotics.Engine.Reason

/-!
The engine at work. Each event runs through every loaded rule before the next event does. While the
engine is at work, events only join its queue.
-/

namespace Domotics

/-- How a call of the engine ends: with an answer, with a fault, or not within the number of events
that it was given. -/
inductive Ending (α : Type) where
  | returned (a : α)
  | raised (f : Fault)
  | unsettled
deriving Inhabited

def Ending.map {α β : Type} (f : α → β) : Ending α → Ending β
  | returned a => returned (f a)
  | raised fault => raised fault
  | unsettled => unsettled

def Ending.ofResult {α : Type} : Result α → Ending α
  | .ok a => .returned a
  | .error f => .raised f

namespace World

/-- Replaces a rule, unless the rules have been loaded anew since. -/
def storeMachine (w : World) (generation index : Nat) (m : Machine) : World :=
  { w with engine := w.engine.store generation index m }

def setDraining (w : World) (flag : Bool) : World :=
  { w with engine := { w.engine with draining := flag } }

/-- The rules that a round goes through: the aliases and the generation at its beginning. -/
structure Round where
  aliases : AliasRegistry
  generation : Nat
  now : Moment

/-- Runs an event through some rules from the `index`-th on. -/
def passAll (round : Round) (e : Event) :
    Nat → List Machine → World → Report → World × Result Report
  | _, [], w, report => (w, .ok report)
  | index, m :: rest, w, report =>
    let pass := m.handle round.aliases w e round.now
    let w := pass.world.storeMachine round.generation index pass.machine
    match pass.result with
    | .ok outcome =>
      passAll round e (index + 1) rest w (report.add outcome m.rule.actions.length)
    | .error fault => (w, .error fault)

def processOne (w : World) (e : Event) : World × Result Report :=
  let round : Round := ⟨w.engine.book.aliases, w.engine.generation, w.platform.now⟩
  passAll round e 0 w.engine.book.machines w {}

/-- Processes the events that wait, at most `fuel` of them. -/
def drain : Nat → World → Report → World × Ending Report
  | 0, w, _ => (w, .unsettled)
  | fuel + 1, w, report =>
    match w.engine.pending with
    | [] => (w, .returned report)
    | e :: rest =>
      let w := { w with engine := { w.engine with pending := rest } }
      match w.processOne e with
      | (w, .ok one) => drain fuel w (report.merge one)
      | (w, .error fault) => (w, .raised fault)

/-- Processes an event. While the engine is at work the event waits, and the report is empty. -/
def processEvent (fuel : Nat) (w : World) (e : Event) : World × Ending Report :=
  let w := { w with engine := w.engine.enqueue e }
  if w.engine.draining then (w, .returned {})
  else
    match drain fuel (w.setDraining true) {} with
    | (w, ending) => (w.setDraining false, ending)

/-- Gives some rules, from the `index`-th on, the periodic events that are due. -/
def tickAll (round : Round) :
    Nat → List Machine → World → Report → World × Result Report
  | _, [], w, report => (w, .ok report)
  | index, m :: rest, w, report =>
    let pass := m.handleTick round.aliases w round.now
    let w := pass.world.storeMachine round.generation index pass.machine
    match pass.result with
    | .ok none => tickAll round (index + 1) rest w report
    | .ok (some outcome) =>
      tickAll round (index + 1) rest w (report.add outcome m.rule.actions.length)
    | .error fault => (w, .error fault)

/-- Gives the rules their periodic events, then processes the events that these caused. -/
def tick (fuel : Nat) (w : World) (now : Option Moment) : World × Ending Report :=
  if w.engine.draining then (w, .returned {})
  else
    let round : Round :=
      ⟨w.engine.book.aliases, w.engine.generation, now.getD w.platform.now⟩
    match tickAll round 0 w.engine.book.machines (w.setDraining true) {} with
    | (w, .error fault) => (w.setDraining false, .raised fault)
    | (w, .ok report) =>
      match drain fuel w report with
      | (w, ending) => (w.setDraining false, ending)

/-- What the engine does with an event from the bus: it processes the event and reports on it. -/
def handleFromBus (fuel : Nat) (e : Event) (w : World) : World × HandlerEnding :=
  match w.processEvent fuel e with
  | (w, .returned report) => (w.report report, .done)
  | (w, .raised _) => (w, .failed)
  | (w, .unsettled) => (w, .escaped)

def busSystem (fuel : Nat) : BusSystem World Listener where
  bus w := w.bus
  setBus bus w := { w with bus }
  handle _ := handleFromBus fuel

def publishOnBus (fuel : Nat) (w : World) (e : Event) : World × Ending Unit :=
  match (busSystem fuel).publish fuel e (w.mark (.published e)) with
  | (w, .settled) => (w, .returned ())
  | (w, _) => (w, .unsettled)

def publish (fuel : Nat) (w : World) (e : Event) : World × Ending Unit :=
  if !w.platform.attached then (w, .returned ()) else publishOnBus fuel w e

def updateState (fuel : Nat) (w : World) (r : Reference) (v : Value) (source : String) :
    World × Ending Unit :=
  let (platform, event) := w.platform.update r v source
  publish fuel { w with platform } event

def sendCommand (fuel : Nat) (w : World) (r : Reference) (v : Value) (source : String) :
    World × Ending Unit :=
  let (platform, event) := w.platform.command r v source
  match publish fuel { w with platform } event with
  | (w, .returned ()) =>
    if w.platform.autoupdate then updateState fuel w r v source else (w, .returned ())
  | (w, ending) => (w, ending)

end World
end Domotics
