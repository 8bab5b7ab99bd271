import Domotics.Bus
import Domotics.Engine
import Domotics.Platform

/-!
A platform, an engine and the bus between them, with a journal of what they report and of what happens
among them.
-/

namespace Domotics

inductive Listener where
  | rules
deriving DecidableEq, Inhabited, Repr

inductive LogLine where
  | fired (rule context : Document) (ref : Option Reference) (now : Moment)
  | dispatched (done : Bool)
  | resolved (ref : Option Reference)
  | reported (r : Report)
deriving Inhabited

/-- What happens in a world: an event is published on the bus, a pass of a rule over an event begins,
an action of it loads rules that are armed for some time, at a time, an action has been run, and the pass
ends with an outcome or breaks with a fault. -/
inductive Happening where
  | published (e : Event)
  | began (rule : Document) (e : Event)
  | loaded (armed present : Moment)
  | acted (a : Action)
  | passed (o : Outcome)
  | broke (rule : Document) (e : Event) (f : Fault)
deriving Inhabited

/-- Reports on events from the bus and on ticks, what actions noted, and the trail of what happened. -/
structure Journal where
  reports : Array Report := #[]
  log : Array LogLine := #[]
  trail : Array Happening := #[]
deriving Inhabited

/-- A platform, an engine and a bus. The last rule set that was loaded is kept for loading it again. -/
structure World where
  platform : Platform
  engine : Engine := {}
  bus : Bus Listener := {}
  journal : Journal := {}
  lastRuleSet : RuleSet := {}
deriving Inhabited

namespace World

def surroundings (w : World) (aliases : AliasRegistry) : Surroundings where
  aliases
  catalog := w.platform.catalog
  states := w.platform.states
  solar := w.platform.solar

def report (w : World) (r : Report) : World :=
  { w with journal := { w.journal with reports := w.journal.reports.push r } }

def note (w : World) (line : LogLine) : World :=
  { w with journal := { w.journal with log := w.journal.log.push line } }

def mark (w : World) (x : Happening) : World :=
  { w with journal := { w.journal with trail := w.journal.trail.push x } }

def trail (w : World) : List Happening := w.journal.trail.toList

/-- Loads a rule set, at the present time unless another is given. -/
def load (w : World) (rs : RuleSet) (now : Option Moment) : World × Result Unit :=
  match w.engine.load rs (now.getD w.platform.now) w.platform.solar with
  | (engine, .ok ()) => ({ w with engine, lastRuleSet := rs }, .ok ())
  | (engine, .error fault) => ({ w with engine }, .error fault)

/-- Loads the last rule set again. A load that succeeds is added to the trail. -/
def reload (w : World) (now : Option Moment) : World × Result Unit :=
  match w.load w.lastRuleSet now with
  | (v, .ok ()) => (v.mark (.loaded (now.getD w.platform.now) w.platform.now), .ok ())
  | (v, .error fault) => (v, .error fault)

/-- Hands an event to a subscriber while the engine is at work: it joins the events that the engine
will process, and the report on it is empty. -/
def defer (w : World) (e : Event) : World :=
  { w with engine := w.engine.enqueue e }.report {}

def deferAll (e : Event) (subscriptions : List (EventFilter × Listener)) (w : World) : World :=
  subscriptions.foldl (fun w s => if s.1.accepts e then w.defer e else w) w

/-- Publishes an event while the engine is at work. During a delivery it waits in the queue of the
bus; otherwise the bus delivers it at once, and it waits in the queue of the engine. -/
def publishWithin (w : World) (e : Event) : World :=
  if !w.platform.attached then w
  else
    let w := w.mark (.published e)
    let bus := w.bus.enqueue e
    if bus.dispatching then { w with bus }
    else
      bus.queue.foldl (fun w e => deferAll e bus.subscriptions w)
        { w with bus := { bus with queue := [] } }

def updateWithin (w : World) (r : Reference) (v : Value) (source : String) : World :=
  let (platform, event) := w.platform.update r v source
  { w with platform }.publishWithin event

def commandWithin (w : World) (r : Reference) (v : Value) (source : String) : World :=
  let (platform, event) := w.platform.command r v source
  let w := { w with platform }.publishWithin event
  if w.platform.autoupdate then w.updateWithin r v source else w

@[simp] theorem report_engine (w : World) (r : Report) : (w.report r).engine = w.engine := rfl

@[simp] theorem report_platform (w : World) (r : Report) : (w.report r).platform = w.platform := rfl

@[simp] theorem note_engine (w : World) (l : LogLine) : (w.note l).engine = w.engine := rfl

@[simp] theorem note_platform (w : World) (l : LogLine) : (w.note l).platform = w.platform := rfl

@[simp] theorem report_trail (w : World) (r : Report) : (w.report r).trail = w.trail := rfl

@[simp] theorem note_trail (w : World) (l : LogLine) : (w.note l).trail = w.trail := rfl

@[simp] theorem mark_engine (w : World) (x : Happening) : (w.mark x).engine = w.engine := rfl

@[simp] theorem mark_platform (w : World) (x : Happening) : (w.mark x).platform = w.platform := rfl

@[simp] theorem mark_bus (w : World) (x : Happening) : (w.mark x).bus = w.bus := rfl

@[simp] theorem mark_trail (w : World) (x : Happening) : (w.mark x).trail = w.trail ++ [x] := by
  simp [mark, trail]

theorem prefix_mark (w : World) (x : Happening) : w.trail <+: (w.mark x).trail := by
  rw [mark_trail]
  exact List.prefix_append ..

end World
end Domotics
