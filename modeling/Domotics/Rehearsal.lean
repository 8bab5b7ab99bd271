import Domotics.Service

/-!
Rehearsals: rules against devices and a clock that exist only for the purpose. Every rehearsal begins
at the same time with a new platform, bus and engine. Targets of the script resolve as targets of
rules do, and have to.
-/

namespace Domotics

/-- A clock that moves only when it is told to, and only forward. -/
structure VirtualClock where
  now : Moment
deriving DecidableEq, Inhabited, Repr

namespace VirtualClock

def start (m : Moment) : Result VirtualClock :=
  if m.offset.isNone then .error (.clock .noOffset) else .ok ⟨m⟩

def moveTo (c : VirtualClock) (m : Moment) : Result VirtualClock := do
  if (← m.order c.now) = .lt then .error (.clock (.backwards c.now m)) else return ⟨m⟩

def advance (c : VirtualClock) (d : Duration) : Result VirtualClock := do
  c.moveTo (← c.now.shift d)

end VirtualClock

structure Rehearsal where
  service : Service
  clock : VirtualClock
deriving Inhabited

namespace Rehearsal

def catalog (r : Rehearsal) : Catalog := r.service.world.platform.catalog

def withCatalog (r : Rehearsal) (c : Catalog) : Rehearsal :=
  { r with service := { r.service with world := { r.service.world with
    platform := { r.service.world.platform with catalog := c } } } }

def withWorld (r : Rehearsal) (w : World) : Rehearsal :=
  { r with service := { r.service with world := w } }

def begin (rs : RuleSet) (start : Moment) (solar : Option SolarCalendar) : Result Rehearsal := do
  let clock ← VirtualClock.start start
  let platform : Platform :=
    { now := start, solar := solar.getD { offset := start.offset } }
  let (service, r) := ({ world := { platform } } : Service).attachToNewBus
  r
  let (service, r) := service.loadRuleSet rs
  r
  return { service, clock }

/-- A mistake in registering a device is a mistake in the script. -/
def rejecting {α : Type} : Result α → Result α
  | .error (.invalid cause) => .error (.setup (.rejected cause))
  | r => r

def described (c : Catalog) (r : Reference) : Description := (c.describe? r).getD { ref := r }

def addThing (r : Rehearsal) (label : String) (uid location : Option String) :
    Result (Description × Rehearsal) := do
  let uid := (uid.filter (· != "")).getD ("test:thing:" ++ label)
  let (_, c) ← rejecting (r.catalog.addThing uid (some label) location (some "test"))
  return (described c ⟨.thing, uid⟩, r.withCatalog c)

/-- Adds a channel, and the thing that it belongs to if there is none yet. If the channel cannot be
added, a thing that was added for it stays. -/
def addChannel (r : Rehearsal) (label : String) (accepts : List ValueType)
    (uid location : Option String) : Rehearsal × Result Description :=
  if accepts.isEmpty then (r, .error (.setup (.channelTypes label)))
  else
    let uid := (uid.filter (· != "")).getD ("test:channel:" ++ label ++ ":value")
    match Text.cutLast ':' uid with
    | none => (r, .error (.setup (.channelUid uid)))
    | some (thing, name) =>
      if thing = "" ∨ name = "" then (r, .error (.setup (.channelUid uid)))
      else
        let withThing :=
          if (r.catalog.thing? thing).isSome then .ok r
          else do
            let (_, c) ← rejecting (r.catalog.addThing thing (some label) location (some "test"))
            return r.withCatalog c
        match withThing with
        | .error fault => (r, .error fault)
        | .ok r =>
          match rejecting (r.catalog.addChannel thing name accepts true) with
          | .error fault => (r, .error fault)
          | .ok (_, c) => (r.withCatalog c, .ok (described c ⟨.channel, uid⟩))

def addItem (r : Rehearsal) (name : String) (accepts : List ValueType) (channel : Option String) :
    Result (Description × Rehearsal) := do
  if accepts.isEmpty then .error (.setup (.itemTypes name))
  let (_, c) ← rejecting (r.catalog.addItem name accepts channel)
  return (described c ⟨.item, name⟩, r.withCatalog c)

def resolve (r : Rehearsal) (target : Document) (v : Value) : Result Description := do
  let type ← rejecting v.typeOf
  let resolution ← Resolution.ofTarget r.service.world.engine.book.aliases r.catalog target type
  match resolution.reference with
  | some d => return d
  | none => .error (.setup (.target target resolution.status))

def seedState (r : Rehearsal) (target : Document) (v : Value) : Result (Description × Rehearsal) := do
  let d ← r.resolve target v
  let w := r.service.world
  return (d, r.withWorld { w with platform := w.platform.setState d.ref v })

def withTarget (r : Rehearsal) (target : Document) (v : Value)
    (act : World → Reference → World × Ending Unit) : Rehearsal × Ending Description :=
  match r.resolve target v with
  | .error fault => (r, .raised fault)
  | .ok d =>
    match act r.service.world d.ref with
    | (w, ending) => (r.withWorld w, ending.map fun _ => d)

def updateState (fuel : Nat) (r : Rehearsal) (target : Document) (v : Value) :
    Rehearsal × Ending Description :=
  r.withTarget target v fun w ref => w.updateState fuel ref v "harness"

def updateStatus (fuel : Nat) (r : Rehearsal) (target : Document) (v : Value) :
    Rehearsal × Ending Description :=
  match v with
  | .status _ => r.updateState fuel target v
  | _ => (r, .raised (.setup (.notStatus v)))

def sendCommand (fuel : Nat) (r : Rehearsal) (target : Document) (v : Value) :
    Rehearsal × Ending Description :=
  r.withTarget target v fun w ref => w.sendCommand fuel ref v "harness"

def setTime (r : Rehearsal) (m : Moment) : Result Rehearsal := do
  let clock ← r.clock.moveTo m
  let w := r.service.world
  return { r with clock }.withWorld { w with platform := { w.platform with now := m } }

/-- Delivers the periodic events up to a time, each at its own time, at most `count` of them. The
wake-up has to move forward with every event. -/
def wait (fuel : Nat) (finish : Moment) :
    Nat → Rehearsal → Option Moment → Rehearsal × Ending Unit
  | 0, r, _ => (r, .unsettled)
  | count + 1, r, wakeup =>
    let arrive (r : Rehearsal) : Rehearsal × Ending Unit :=
      match r.setTime finish with
      | .ok r => (r, .returned ())
      | .error fault => (r, .raised fault)
    match wakeup with
    | none => arrive r
    | some tick =>
      match tick.order finish with
      | .error fault => (r, .raised fault)
      | .ok .gt => arrive r
      | .ok _ =>
        match r.setTime tick with
        | .error fault => (r, .raised fault)
        | .ok r =>
          match r.service.tick fuel (some tick) with
          | (service, .raised fault) => ({ r with service }, .raised fault)
          | (service, .unsettled) => ({ r with service }, .unsettled)
          | (service, .returned _) =>
            let r := { r with service }
            match r.service.nextWakeup with
            | .error fault => (r, .raised fault)
            | .ok none => wait fuel finish count r none
            | .ok (some next) =>
              match next.order tick with
              | .error fault => (r, .raised fault)
              | .ok .gt => wait fuel finish count r (some next)
              | .ok _ => (r, .raised (.clock (.stuck tick)))

def delayOf (seconds : Document) : Result Duration :=
  match seconds.toNumber? with
  | none => Result.misuse (.notOrdered seconds)
  | some x =>
    if x.isNegative then .error (.setup (.negativeDelay seconds)) else Duration.ofNumber x

def delay (fuel : Nat) (r : Rehearsal) (seconds : Document) : Rehearsal × Ending Unit :=
  let plan := do
    let finish ← r.clock.now.shift (← delayOf seconds)
    return (finish, ← r.service.nextWakeup)
  match plan with
  | .error fault => (r, .raised fault)
  | .ok (finish, wakeup) => wait fuel finish fuel r wakeup

def resetHistory (r : Rehearsal) : Rehearsal :=
  let w := r.service.world
  r.withWorld { w with engine := w.engine.resetHistory }

inductive Expectation where
  | triggered (rule : Document)
  | notTriggered (rule : Document)
  | firedTimes (rule count : Document)
  | commandSent (target : Document) (value : Value)
  | stateIs (target : Document) (value : Value)
  | coolingDown (rule : Document)
deriving Inhabited

def Expectation.description : Expectation → Result String
  | triggered rule => .ok s!"'{rule.asText}' is triggered"
  | notTriggered rule => .ok s!"'{rule.asText}' is not triggered"
  | firedTimes rule count => .ok s!"'{rule.asText}' fired {count.asText} times"
  | commandSent target value => do
    return s!"'{target.asText}' received command " ++ (← value.text)
  | stateIs target value => do return s!"'{target.asText}' is " ++ (← value.text)
  | coolingDown rule => .ok s!"'{rule.asText}' is cooling down"

structure Assertion where
  expected : Expectation
  description : String
deriving Inhabited

/-- Asserts an expectation, which has to have words. -/
def Assertion.ofExpectation (e : Expectation) : Result Assertion :=
  e.description.map fun description => ⟨e, description⟩

def meets (r : Rehearsal) (e : Expectation) : Result Bool :=
  let w := r.service.world
  let named (rule : Document) (b : Bool) : Result Bool :=
    if rule.isScalar then .ok b else Result.misuse (.unhashable rule)
  match e with
  | .triggered rule => named rule (w.engine.isTriggered rule)
  | .notTriggered rule => named rule (w.engine.isNotTriggered rule)
  | .firedTimes rule count =>
    named rule ((Document.int (w.engine.firedCount rule)).equals count)
  | .commandSent target value => do
    let d ← r.resolve target value
    return w.platform.received d.ref value
  | .stateIs target value => do
    let d ← r.resolve target .absent
    return (w.platform.stateOf d.ref).equals value
  | .coolingDown rule =>
    if !rule.isScalar then Result.misuse (.unhashable rule)
    else match w.engine.machine? rule with
      | none => .error (.setup (.unknownRule rule))
      | some m => do return !(← m.retrigger.mayFire r.clock.now)

/-- The outcome of a scenario: its assertions with whether they held, the fires of every rule, and
the faults of rules. -/
structure Outcome where
  name : Document
  assertions : List (String × Bool)
  fired : List (Document × Nat)
  errors : List String
deriving Inhabited

def Outcome.passed (o : Outcome) : Bool := o.assertions.all (·.2)

def Outcome.failures (o : Outcome) : List String := (o.assertions.filter (!·.2)).map (·.1)

def checkAll (r : Rehearsal) : List Assertion → Result (List (String × Bool))
  | [] => .ok []
  | a :: rest => do
    let held ← r.meets a.expected
    return (a.description, held) :: (← checkAll r rest)

def finish (r : Rehearsal) (name : Document) (assertions : List Assertion) : Result Outcome := do
  let w := r.service.world
  return {
    name
    assertions := ← r.checkAll assertions
    fired := r.service.ruleNames.map fun rule => (rule, w.engine.firedCount rule)
    errors := w.journal.reports.toList.flatMap (·.errors) }

end Rehearsal
end Domotics
