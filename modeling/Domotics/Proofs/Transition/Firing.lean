import Domotics.Proofs.Service.Completion
import Domotics.Proofs.Transition.Watch

/-!
A rule that waits for a transition of a device fires on exactly the transitions, in every run after a load.
In each call from outside the rule passes over all updates of the device in the order of publication, so
its answers are those that it owes to the updates, from one call to the next.
-/

namespace Domotics

open Happening

def eventsAt (name : Document) (evaluations : List Evaluation) : List Event :=
  (evaluations.filter (·.1.agrees name)).map (·.2)

theorem eventsAt_dueOf {rules : List Rule} {r : Rule} (hapart : RuleBook.Apart rules)
    (hr : r ∈ rules) (hname : r.name.isScalar = true) (events : List Event) :
    eventsAt r.name (dueOf rules events) = events := by
  induction events with
  | nil => rfl
  | cons e rest ih =>
    have hone : (rules.map fun s => (s.name, e)).filter (·.1.agrees r.name) = [(r.name, e)] := by
      rw [List.filter_map]
      exact congrArg (List.map _) (hapart.filter_agrees hr hname)
    rw [eventsAt] at ih
    rw [eventsAt, dueOf, List.flatMap_cons, List.filter_append, hone, List.map_append, ← dueOf, ih]
    rfl

theorem eventsAt_evaluatedIn (name : Document) (trail : List Happening) :
    eventsAt name (evaluatedIn trail) =
      ((outcomesOf name trail).filter (·.event.ofDevice)).map (·.event) := by
  induction trail with
  | nil => rfl
  | cons x rest ih =>
    cases x with
    | passed o =>
      rw [eventsAt] at ih ⊢
      cases hname : o.rule.agrees name <;> cases hdevice : o.event.ofDevice <;>
        simp_all [evaluatedIn, evaluated?, outcomesOf, outcomeOf?]
    | _ => exact ih

theorem map_event_answersOf {rules : List Rule} {r : Rule} {trail : List Happening}
    (hapart : RuleBook.Apart rules) (hr : r ∈ rules) (hname : r.name.isScalar = true)
    (h : evaluatedIn trail = dueOf rules (devicesIn trail)) (d : Reference) :
    (answersOf r.name d trail).map (·.event) = updatesOf d trail := by
  have hdevice (e : Event) : (e.updates d && e.ofDevice) = e.updates d := by
    cases hupdates : e.updates d with
    | false => rfl
    | true => rw [Event.ofDevice_of_updates hupdates, Bool.and_true]
  have hevents : ((outcomesOf r.name trail).filter (·.event.ofDevice)).map (·.event) =
      devicesIn trail := by
    rw [← eventsAt_evaluatedIn, h, eventsAt_dueOf hapart hr hname]
  calc (answersOf r.name d trail).map (·.event)
      = (((outcomesOf r.name trail).filter (·.event.ofDevice)).map (·.event)).filter
          (·.updates d) := by
        rw [List.filter_map, List.filter_filter, answersOf]
        simp only [Function.comp_apply, hdevice]
    _ = updatesOf d trail := by
        rw [hevents, devicesIn, List.filter_filter, updatesOf]
        simp only [hdevice]

/-- A rule that waits for a transition makes of the updates of a device what it should: they lead from one
state to another, the rule passes over each of them at its time and answers as its memory says, and nothing
else makes it fire. -/
structure Answers (p : Predicate) (r : Rule) (d : Reference) (before : Value) (mem : Memory)
    (later : List Happening) (state : Value) (mem' : Memory) : Prop where
  replays : Memory.Replays p r.cooldown mem (answersOf r.name d later) mem'
  events : (answersOf r.name d later).map (·.event) = updatesOf d later
  timely : ∀ o ∈ answersOf r.name d later, o.time = o.event.time
  chain : Event.Chain before (updatesOf d later) state
  fires : ∀ o ∈ outcomesOf r.name later, o.fired = true → o.event.updates d = true

namespace Answers

variable {p : Predicate} {r : Rule} {d : Reference} {a b c : Value} {mem mem' mem'' : Memory}
  {later last : List Happening}

theorem nil (p : Predicate) (r : Rule) (d : Reference) (a : Value) (mem : Memory) :
    Answers p r d a mem [] a mem :=
  ⟨.nil mem, rfl, by simp [answersOf, outcomesOf], .nil a, by simp [outcomesOf]⟩

theorem trans (h₁ : Answers p r d a mem later b mem') (h₂ : Answers p r d b mem' last c mem'') :
    Answers p r d a mem (later ++ last) c mem'' where
  replays := by
    rw [answersOf_append]
    exact h₁.replays.trans h₂.replays
  events := by rw [answersOf_append, List.map_append, h₁.events, h₂.events, updatesOf_append]
  timely := by
    rw [answersOf_append]
    exact List.forall_mem_append.mpr ⟨h₁.timely, h₂.timely⟩
  chain := by
    rw [updatesOf_append]
    exact h₁.chain.trans h₂.chain
  fires := by
    rw [outcomesOf_append]
    exact List.forall_mem_append.mpr ⟨h₁.fires, h₂.fires⟩

theorem answers (h : Answers p r d a ⟨none, none⟩ later b mem') :
    (answersOf r.name d later).map (fun o => (o.event, o.fired)) =
      p.answers r.cooldown a none (updatesOf d later) := by
  have hanswers := h.replays.answers (by simp) (h.events ▸ h.chain) h.timely
  rwa [h.events] at hanswers

end Answers

namespace World

variable {rules : List Rule} {p : Predicate} {r : Rule} {d : Reference} {mem : Memory}
  {start w : World}

theorem Watched.answers (h : Watched rules p r d mem start w) (hstart : start.Awaits rules p r d mem)
    (hgoes : Goes rules [] start [] w) (hbreaks : w.breaks = start.breaks) :
    ∃ mem' later, w.trail = start.trail ++ later ∧
      Answers p r d (start.platform.stateOf d) mem later (w.platform.stateOf d) mem' ∧
      w.Awaits rules p r d mem' := by
  obtain ⟨later, htrail, htimes, hchain⟩ := h.steady.timely
  obtain ⟨later', htrail', hrules, hwatches⟩ := h.remembers.since h.steady.generation
  obtain ⟨steps, htrail'', hfollows⟩ := hgoes.steps
  obtain rfl : later = later' := List.append_cancel_left (htrail.symm.trans htrail')
  obtain rfl : Step.trailOf steps = later := List.append_cancel_left (htrail''.symm.trans htrail)
  have hunbroken : ∀ x ∈ Step.trailOf steps, x.isBreak = false := by
    rw [breaks, breaks, htrail, List.countP_append] at hbreaks
    have hnone : (Step.trailOf steps).countP (·.isBreak) = 0 := by omega
    intro x hx
    exact Bool.eq_false_iff.mpr (List.countP_eq_zero.mp hnone x hx)
  have hevents := map_event_answersOf hstart.apart hstart.mem_rules hstart.name
    (hfollows.runsToCompletion).complete d
  obtain ⟨m, hm, rfl⟩ := List.mem_map.mp (hrules ▸ hstart.mem_rules)
  have htracks := hwatches m hm rfl hunbroken
  refine ⟨m.memory d, _, htrail, ⟨htracks.replays, hevents, fun o ho => ?_, hchain, htracks.fires⟩,
    { hstart with
      carries := hgoes.carries
      stands := by
        rw [h.steady.aliases, h.steady.catalog]
        exact hstart.stands
      remembers := fun m' hm' hr => ?_ }⟩
  · have hupdate := List.mem_map_of_mem (f := Outcome.event) ho
    rw [hevents] at hupdate
    have hevent : o.event ∈ publishedIn (Step.trailOf steps) := List.mem_of_mem_filter hupdate
    rw [htracks.timely o (List.mem_of_mem_filter ho), htimes o.event hevent]
  · -- whatever is this rule has made the same passes, so it remembers the same
    have htracks' := hwatches m' hm' hr hunbroken
    have hreplays := htracks'.replays
    rw [hr] at hreplays
    exact ⟨htracks'.tickless, hreplays.unique htracks.replays⟩

/-- A call that leaves a device to updates: it is an ordinary one, or changes the platform in such a way
that the device keeps its state and the target of the predicate stands for the device. -/
def Spares (p : Predicate) (d : Reference) (w : World) : Call → Prop
  | .adjust q => q.stateOf d = w.platform.stateOf d ∧
      p.StandsFor w.engine.book.aliases q.catalog d
  | c => c.isOrdinary = true

theorem Spares.viaBus {c : Call} (h : w.Spares p d c) : c.viaBus = true := by
  cases c <;> first | rfl | cases h

theorem answers_perform (fuel : Nat) {c : Call} (hidle : start.Idle)
    (hstart : start.Awaits rules p r d mem) (hspares : start.Spares p d c)
    (hending : (start.perform fuel c).2 ≠ .unsettled)
    (hbreaks : (start.perform fuel c).1.breaks = start.breaks) :
    ∃ mem' later, (start.perform fuel c).1.trail = start.trail ++ later ∧
      Answers p r d (start.platform.stateOf d) mem later
        ((start.perform fuel c).1.platform.stateOf d) mem' ∧
      (start.perform fuel c).1.Awaits rules p r d mem' := by
  have hgoes := (completes_perform fuel hspares.viaBus hidle hstart.carries hending hbreaks).2
  have hordinary (h : c.isOrdinary = true) :=
    (hstart.perform fuel h hidle).answers hstart hgoes hbreaks
  cases c with
  | adjust q =>
    obtain ⟨hstate, hstands⟩ := hspares
    have hsame : (start.adjust q).platform.stateOf d = start.platform.stateOf d := hstate
    refine ⟨mem, [], (List.append_nil _).symm, ?_, { hstart with
      carries := hgoes.carries
      stands := hstands }⟩
    rw [World.perform, hsame]
    exact .nil p r d _ mem
  | _ => exact hordinary hspares

end World

namespace Service

open World

def Undisturbed (fuel : Nat) (p : Predicate) (d : Reference) : Service → List Call → Prop
  | _, [] => True
  | s, c :: rest => s.world.Spares p d c ∧ Undisturbed fuel p d (s.perform fuel c).1 rest

variable {rs : RuleSet} {rules : List Rule} {p : Predicate} {r : Rule} {d : Reference}
  {mem : Memory} {s : Service} (fuel : Nat)

theorem answers_perform {c : Call} (hrunning : s.running = true) (hidle : s.world.Idle)
    (hawaits : s.world.Awaits rules p r d mem) (hspares : s.world.Spares p d c)
    (hends : (s.perform fuel c).2.settles = true)
    (hbreaks : (s.perform fuel c).1.world.breaks = s.world.breaks) :
    ∃ mem' later, (s.perform fuel c).1.world.trail = s.world.trail ++ later ∧
      Answers p r d (s.world.platform.stateOf d) mem later
        ((s.perform fuel c).1.world.platform.stateOf d) mem' ∧
      (s.perform fuel c).1.world.Awaits rules p r d mem' := by
  obtain ⟨hending, -, reports, hworld⟩ := perform_of_running fuel hrunning c
  rw [hending] at hends
  rw [hworld] at hbreaks ⊢
  obtain ⟨mem', later, htrail, hanswers, hafter⟩ := World.answers_perform fuel hidle hawaits hspares
    (fun h => by rw [h] at hends; cases hends) hbreaks
  exact ⟨mem', later, htrail, hanswers, { hafter with
    carries := ⟨hafter.carries.inOrder, hafter.carries.keepsToBus⟩ }⟩

theorem answers_run {calls : List Call} (hrunning : s.running = true) (hidle : s.world.Idle)
    (hawaits : s.world.Awaits rules p r d mem) (hcalls : Undisturbed fuel p d s calls)
    (hends : ∀ x ∈ (s.run fuel calls).2, x.settles = true)
    (hbreaks : (s.run fuel calls).1.world.breaks = s.world.breaks) :
    ∃ mem' later, (s.run fuel calls).1.world.trail = s.world.trail ++ later ∧
      Answers p r d (s.world.platform.stateOf d) mem later
        ((s.run fuel calls).1.world.platform.stateOf d) mem' := by
  induction calls generalizing s mem with
  | nil => exact ⟨mem, [], (List.append_nil _).symm, .nil p r d _ mem⟩
  | cons c rest ih =>
    obtain ⟨hspares, hcalls⟩ := hcalls
    obtain ⟨hfirst, hlater⟩ := List.forall_mem_cons.mp hends
    have hready : s.Ready := ⟨hrunning, hidle.atRest⟩
    obtain ⟨hnext, hgrows⟩ := hready.perform fuel hfirst
    obtain ⟨hnone, hnone'⟩ := breaks_between hgrows (hnext.run fuel hlater) hbreaks
    obtain ⟨hrunning', hcompletes⟩ :=
      completes_perform fuel hrunning hidle hawaits.carries hspares.viaBus hfirst hnone
    obtain ⟨mem', later, htrail, hanswers, hafter⟩ :=
      answers_perform fuel hrunning hidle hawaits hspares hfirst hnone
    obtain ⟨mem'', last, htrail', hanswers'⟩ :=
      ih hrunning' hcompletes.1 hafter hcalls hlater hnone'
    refine ⟨mem'', later ++ last, ?_, hanswers.trans hanswers'⟩
    rw [← List.append_assoc, ← htrail]
    exact htrail'

theorem Loaded.awaits (h : Loaded rs s)
    (hactions : ∀ r ∈ rs.rules, Action.allKeepToBus r.actions = true) (hr : r ∈ rs.rules)
    (hwaits : r.WaitsFor p)
    (hstands : p.StandsFor s.world.engine.book.aliases s.world.platform.catalog d) :
    s.world.Awaits rs.rules p r d ⟨none, none⟩ := by
  have hholds := h.starts.holds
  obtain ⟨m, hm, hrule⟩ := List.mem_map.mp (hholds.inOrder ▸ hr)
  refine ⟨⟨hholds.inOrder, hactions⟩, hholds.apart, hr, hwaits, ?_, hstands, fun m hm hr => ?_⟩
  · rw [← hrule]
    exact (hholds.fresh m hm).name
  · have hfresh := hholds.fresh m hm
    have hperiodic : m.rule.periodic = [] := by rw [hr, hwaits.periodic]
    refine ⟨⟨hfresh.cooldown, hfresh.specs.trans hperiodic, hfresh.nextTick hperiodic⟩, ?_⟩
    rw [Machine.memory, hfresh.cache, hfresh.lastFired]
    rfl

/-- After a load a rule that waits for a transition fires on exactly the transitions. In every run of
updates, commands, ticks and changes of the platform that leave the device to updates, and in which no pass
breaks, the rule passes over each update of its device, and fires if the update is the transition, seen
from the state of the platform before it, and comes when the rule has rested since its last fire. Nothing
else makes it fire. -/
theorem fires_on_transitions (hloaded : Loaded rs s)
    (hactions : ∀ r ∈ rs.rules, Action.allKeepToBus r.actions = true)
    (hr : r ∈ rs.rules) (hwaits : r.WaitsFor p)
    (hstands : p.StandsFor s.world.engine.book.aliases s.world.platform.catalog d)
    {calls : List Call} (hcalls : Undisturbed fuel p d s calls)
    (hends : ∀ x ∈ (s.run fuel calls).2, x.settles = true)
    (hbreaks : (s.run fuel calls).1.world.breaks = s.world.breaks) :
    ∃ later, (s.run fuel calls).1.world.trail = s.world.trail ++ later ∧
      Event.Chain (s.world.platform.stateOf d) (updatesOf d later)
        ((s.run fuel calls).1.world.platform.stateOf d) ∧
      (answersOf r.name d later).map (fun o => (o.event, o.fired)) =
        p.answers r.cooldown (s.world.platform.stateOf d) none (updatesOf d later) ∧
      (∀ o ∈ answersOf r.name d later, o.time = o.event.time) ∧
      ∀ o ∈ outcomesOf r.name later, o.fired = true → o.event.updates d = true := by
  have hawaits := hloaded.awaits hactions hr hwaits hstands
  obtain ⟨mem, later, htrail, hanswers⟩ := answers_run fuel hloaded.starts.running
    hloaded.starts.idle hawaits hcalls hends hbreaks
  exact ⟨later, htrail, hanswers.chain, hanswers.answers, hanswers.timely, hanswers.fires⟩

def lampGoesOn : Predicate :=
  { target := .text "lamp", kind := .goes, value := .onOff .on, type := some .onOff }

def watch : Rule :=
  { name := .text "watch", triggers := [.device lampGoesOn], actions := [.record] }

/-- A rule that waits for the lamp to go on, and one that puts the lamp on whenever a door moves. -/
def watching : RuleSet :=
  let door : Predicate := { target := .text "door", kind := .receivesUpdate }
  { rules := [watch,
      { name := .text "follow", triggers := [.device door], cooldown := .zero
        actions := [.set (.device ⟨.item, "lamp"⟩) (.onOff .on)] }] }

def house : Platform :=
  { catalog := { items := [{ name := "lamp", accepts := [.onOff] },
      { name := "door", accepts := [.openClosed] }] }
    now := ⟨0, none⟩ }

def watchingService : Service :=
  let s : Service := { world := { platform := house } }
  (s.attachToNewBus.1.loadRuleSet watching).1

/-- The door moves twice, and each time the lamp is put off again. Five seconds later the lamp is sent a
command, and the door moves twice more. -/
def watchingCalls : List Call :=
  let moves : Call := .update ⟨.item, "door"⟩ (.openClosed .opened) "user"
  let off : Call := .update ⟨.item, "lamp"⟩ (.onOff .off) "user"
  let later : Platform := { house.setState ⟨.item, "lamp"⟩ (.onOff .off) with now := ⟨5000000, none⟩ }
  [moves, off, moves, off, .adjust later, .command ⟨.item, "lamp"⟩ (.onOff .on) "user", moves, moves]

theorem loaded_watching : Loaded watching watchingService :=
  .load (.attach rfl rfl (ok_of_isOk (by decide +kernel))) (ok_of_isOk (by decide +kernel))

theorem standsFor_lamp {aliases : AliasRegistry} (h : (aliases.lookup? "lamp").isNone = true) :
    lampGoesOn.StandsFor aliases house.catalog ⟨.item, "lamp"⟩ :=
  Predicate.standsFor_item { name := "lamp", accepts := [.onOff] } rfl
    (Option.isNone_iff_eq_none.mp h) rfl (by simp [lampGoesOn])

theorem undisturbed_watching :
    Undisturbed 9 lampGoesOn ⟨.item, "lamp"⟩ watchingService watchingCalls := by
  refine ⟨rfl, rfl, rfl, rfl, ⟨?_, standsFor_lamp (by decide +kernel)⟩, rfl, rfl, rfl, trivial⟩
  have hoff {v : Value} (h : v.equals (.onOff .off) = true) : v = .onOff .off := by
    cases v <;> simp_all [Value.equals]
  exact (hoff (by decide +kernel)).trans (hoff (by decide +kernel)).symm

theorem fires_on_transitions_watching :
    let lamp : Reference := ⟨.item, "lamp"⟩
    let out := watchingService.run 9 watchingCalls
    Loaded watching watchingService ∧
    (∀ r ∈ watching.rules, Action.allKeepToBus r.actions = true) ∧
    watch ∈ watching.rules ∧ watch.WaitsFor lampGoesOn ∧
    lampGoesOn.StandsFor watchingService.world.engine.book.aliases
      watchingService.world.platform.catalog lamp ∧
    Undisturbed 9 lampGoesOn lamp watchingService watchingCalls ∧
    (∀ x ∈ out.2, x.settles = true) ∧
    out.1.world.breaks = watchingService.world.breaks ∧
    ∃ later, out.1.world.trail = watchingService.world.trail ++ later ∧
      Event.Chain (watchingService.world.platform.stateOf lamp) (updatesOf lamp later)
        (out.1.world.platform.stateOf lamp) ∧
      (answersOf watch.name lamp later).map (fun o => (o.event, o.fired)) =
        lampGoesOn.answers watch.cooldown (watchingService.world.platform.stateOf lamp) none
          (updatesOf lamp later) ∧
      (∀ o ∈ answersOf watch.name lamp later, o.time = o.event.time) ∧
      ∀ o ∈ outcomesOf watch.name later, o.fired = true → o.event.updates lamp = true := by
  have hactions : ∀ r ∈ watching.rules, Action.allKeepToBus r.actions = true := by decide
  have hmem : watch ∈ watching.rules := List.mem_cons_self ..
  have hwaits : watch.WaitsFor lampGoesOn := ⟨.inl rfl, rfl, rfl, rfl, rfl, rfl⟩
  have hstands : lampGoesOn.StandsFor watchingService.world.engine.book.aliases
      watchingService.world.platform.catalog ⟨.item, "lamp"⟩ := standsFor_lamp (by decide +kernel)
  have hends : ∀ x ∈ (watchingService.run 9 watchingCalls).2, x.settles = true := by decide +kernel
  have hbreaks : (watchingService.run 9 watchingCalls).1.world.breaks =
      watchingService.world.breaks := by decide +kernel
  exact ⟨loaded_watching, hactions, hmem, hwaits, hstands, undisturbed_watching, hends, hbreaks,
    fires_on_transitions 9 loaded_watching hactions hmem hwaits hstands undisturbed_watching hends
      hbreaks⟩

example :
    ((outcomesOf watch.name (watchingService.run 9 watchingCalls).1.world.trail).filter (·.fired)).map
      (·.time) = [⟨0, none⟩, ⟨5000000, none⟩] := by decide +kernel

end Service

end Domotics
