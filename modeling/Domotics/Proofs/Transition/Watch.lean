import Domotics.Proofs.Run.Completion
import Domotics.Proofs.Transition.Judge
import Domotics.Proofs.Transition.Steady

/-!
A call from outside as a rule sees it that waits for a transition of a device. Whatever the other rules do
in the call, the rule passes over each event that reaches it at the time of the clock, answers the updates
of the device as its memory says, and is left alone by ticks.
-/

namespace Domotics

namespace Retrigger

theorem nextTick_recordFired {r : Retrigger} (hspecs : r.specs = []) (h : r.nextTick = none)
    (now : Moment) (solar : SolarCalendar) : (r.recordFired now solar).1.nextTick = none := by
  rw [recordFired]
  dsimp only
  split
  · rw [plan_of_specs_eq_nil (r := { r with lastFired := some now }) hspecs]
  · exact h

end Retrigger

namespace Machine

open Happening

/-- A rule that keeps its cooldown and to which no ticks come. -/
structure Tickless (m : Machine) : Prop where
  cooldown : m.retrigger.cooldown = m.rule.cooldown
  specs : m.retrigger.specs = []
  nextTick : m.retrigger.nextTick = none

/-- A rule that waits for a transition of a device in a call at the time `now`. It remembered `mem` at the
beginning of the call, and has since then answered the updates of the device as it should, and nothing else
has made it fire. -/
structure Tracks (p : Predicate) (d : Reference) (now : Moment) (mem : Memory) (m : Machine)
    (later : List Happening) : Prop where
  tickless : m.Tickless
  replays : Memory.Replays p m.rule.cooldown mem (answersOf m.rule.name d later) (m.memory d)
  timely : ∀ o ∈ outcomesOf m.rule.name later, o.time = now
  fires : ∀ o ∈ outcomesOf m.rule.name later, o.fired = true → o.event.updates d = true

variable {p : Predicate} {d : Reference} {now : Moment} {mem : Memory} {m : Machine}
  {later added : List Happening} {aliases : AliasRegistry} {w : World} {e : Event} {o : Outcome}

theorem Tickless.handleTick (h : m.Tickless) (aliases : AliasRegistry) (w : World) (now : Moment) :
    m.handleTick aliases w now = ⟨m, w, .ok none⟩ := by
  rw [Machine.handleTick, Retrigger.due_of_nextTick_eq_none h.nextTick]

theorem Tickless.handle (h : m.Tickless) (aliases : AliasRegistry) (w : World) (e : Event)
    (now : Moment) : (m.handle aliases w e now).machine.Tickless := by
  have hfired {after : World} {retrigger : Retrigger} {result : Result Unit}
      (hrecord : m.retrigger.recordFired now after.platform.solar = (retrigger, result)) :
      ({ m.noting e with retrigger, phase := .idle } : Machine).Tickless := by
    have heq : retrigger = (m.retrigger.recordFired now after.platform.solar).1 := by rw [hrecord]
    subst heq
    refine ⟨?_, ?_, ?_⟩
    · rw [Retrigger.recordFired_cooldown]
      exact h.cooldown
    · rw [Retrigger.recordFired_specs]
      exact h.specs
    · exact Retrigger.nextTick_recordFired h.specs h.nextTick now _
  have hhandled := m.handled_handle aliases w e now
  generalize m.handle aliases w e now = pass at hhandled ⊢
  cases hhandled with
  | broke => exact ⟨h.cooldown, h.specs, h.nextTick⟩
  | rested => exact ⟨h.cooldown, h.specs, h.nextTick⟩
  | fired _ _ _ _ hrecord => exact hfired hrecord
  | unplanned _ _ _ hrecord => exact hfired hrecord

theorem Tracks.pause (h : m.Tracks p d now mem later) (hnone : outcomesOf m.rule.name added = []) :
    m.Tracks p d now mem (later ++ added) := by
  refine ⟨h.tickless, ?_, ?_, ?_⟩
  · rw [answersOf_append, answersOf, answersOf, hnone, List.filter_nil, List.append_nil]
    exact h.replays
  · rw [outcomesOf_append, hnone, List.append_nil]
    exact h.timely
  · rw [outcomesOf_append, hnone, List.append_nil]
    exact h.fires

theorem Tracks.handle (h : m.Tracks p d now mem later) (hwaits : m.rule.WaitsFor p)
    (hstands : p.StandsFor aliases w.platform.catalog d) (hdevice : e.ofDevice = true)
    (hok : (m.handle aliases w e now).result = .ok o) (hone : outcomesOf m.rule.name added = [o]) :
    (m.handle aliases w e now).machine.Tracks p d now mem (later ++ added) := by
  obtain ⟨hevent, htime, hupdates, hreplays⟩ :=
    replays_handle hwaits h.tickless.cooldown hstands hdevice hok
  have hfires : o.fired = true → o.event.updates d = true := by rwa [hevent]
  have hrule := (passed_handle m aliases w e now).rule
  refine ⟨h.tickless.handle aliases w e now, ?_, ?_, ?_⟩
  · rw [hrule, answersOf_append]
    refine h.replays.trans ?_
    rwa [answersOf, hone]
  · rw [hrule, outcomesOf_append, hone]
    exact fun x hx => (List.mem_append.mp hx).elim (h.timely x)
      fun hx => List.mem_singleton.mp hx ▸ htime
  · rw [hrule, outcomesOf_append, hone]
    exact fun x hx => (List.mem_append.mp hx).elim (h.fires x)
      fun hx => List.mem_singleton.mp hx ▸ hfires

def Watches (p : Predicate) (r : Rule) (d : Reference) (now : Moment) (mem : Memory) (m : Machine)
    (later : List Happening) : Prop :=
  m.rule = r → (∀ x ∈ later, x.isBreak = false) → m.Tracks p d now mem later

/-- A turn of a rule, in which `added` happens: it goes on as it should, and no other rule passes over
anything. -/
structure Attends (p : Predicate) (r : Rule) (d : Reference) (now : Moment) (mem : Memory)
    (m m' : Machine) (added : List Happening) : Prop where
  rule : m'.rule = m.rule
  watches : ∀ later, m.Watches p r d now mem later → m'.Watches p r d now mem (later ++ added)
  others : ∀ name, m.rule.name.agrees name = false → outcomesOf name added = []

variable {r : Rule}

theorem outcomesOf_eq_nil {inner : List Happening} {result : Result Outcome} {name : Document}
    (hinner : ∀ x ∈ inner, x.isInner = true) (hrule : ∀ o, result = .ok o → o.rule = m.rule.name)
    (hother : m.rule.name.agrees name = false) :
    outcomesOf name (.began m.rule.name e :: inner ++ [m.ending e result]) = [] := by
  rw [outcomesOf_pass _ hinner]
  cases hresult : result with
  | error fault => rfl
  | ok o => simp [ending, outcomeOf?, hrule o hresult, hother]

theorem attends_handle (mem : Memory) (hwaits : r.WaitsFor p) (hname : r.name.isScalar = true)
    (hstands : p.StandsFor aliases w.platform.catalog d) (hdevice : e.ofDevice = true) : ∃ added,
    w.Acts (Action.allKeepToBus m.rule.actions = true) (m.handle aliases w e now).world added ∧
      Attends p r d now mem m (m.handle aliases w e now).machine added := by
  obtain ⟨inner, hacts, hinner, hwhole⟩ := acts_handle m aliases w e now
  have hrule := (passed_handle m aliases w e now).rule
  refine ⟨_, hacts, hrule, fun later hm hr hunbroken => ?_, fun name hother => ?_⟩
  · obtain ⟨hlater, hadded⟩ := List.forall_mem_append.mp hunbroken
    rw [hrule] at hr
    have htracks := hm hr hlater
    subst hr
    cases hresult : (m.handle aliases w e now).result with
    | error fault =>
      rw [hresult] at hadded
      cases hadded (.broke m.rule.name e fault) (by simp [ending])
    | ok o =>
      have hself : o.rule.agrees m.rule.name = true := by
        rw [(hwhole o hresult).2.rule]
        exact Document.agrees_self_of_isScalar hname
      refine htracks.handle hwaits hstands hdevice hresult ?_
      rw [outcomesOf_pass _ hinner]
      simp [ending, outcomeOf?, hself]
  · exact outcomesOf_eq_nil hinner (fun o ho => (hwhole o ho).2.rule) hother

/-- A tick leaves a rule alone to which no ticks come, and no other rule is the one that waits. -/
theorem attends_handleTick (p : Predicate) (r : Rule) (d : Reference) (now : Moment) (mem : Memory)
    (m : Machine) (aliases : AliasRegistry) (w : World) (time : Moment) : ∃ added,
    w.Acts (Action.allKeepToBus m.rule.actions = true) (m.handleTick aliases w time).world added ∧
      Attends p r d now mem m (m.handleTick aliases w time).machine added := by
  by_cases htickless : m.Tickless
  · rw [htickless.handleTick]
    exact ⟨[], .refl w, rfl, fun later hm => by rwa [List.append_nil], fun _ _ => rfl⟩
  · have hvacuous {m' : Machine} (hrule : m'.rule = m.rule) (later added : List Happening)
        (hm : m.Watches p r d now mem later) : m'.Watches p r d now mem (later ++ added) :=
      fun hr hunbroken => absurd
        (hm (hrule ▸ hr) (List.forall_mem_append.mp hunbroken).1).tickless htickless
    obtain ⟨inner, hacts, hinner, hwhole⟩ := acts_handle m aliases w (.tick time) time
    have hothers {name : Document} (hother : m.rule.name.agrees name = false) :=
      outcomesOf_eq_nil (e := .tick time) hinner (fun o ho => (hwhole o ho).2.rule) hother
    have hrule := (passed_handle m aliases w (.tick time) time).rule
    have hticked := m.ticked_handleTick aliases w time
    generalize m.handleTick aliases w time = tick at hticked ⊢
    cases hticked with
    | notDue => exact ⟨[], .refl w, rfl, fun later => hvacuous rfl later [], fun _ _ => rfl⟩
    | unknown fault =>
      exact ⟨_, .mark w _ rfl, rfl, fun later => hvacuous rfl later _, fun _ _ => rfl⟩
    | passed hresult hplanned =>
      have hrule' := hplanned.rule.trans hrule
      exact ⟨_, hacts, hrule', fun later => hvacuous hrule' later _, fun _ => hothers⟩
    | unplanned fault hplanned =>
      have hrule' := hplanned.rule.trans hrule
      refine ⟨_, hacts.trans (.mark _ _ rfl), hrule', fun later => hvacuous hrule' later _,
        fun name hother => ?_⟩
      rw [outcomesOf_append, hothers hother]
      rfl

end Machine

namespace World

open Happening Machine

/-- A world in which one of the loaded rules waits for a transition of the device that its target stands
for. The rule remembers `mem`. -/
structure Awaits (rules : List Rule) (p : Predicate) (r : Rule) (d : Reference) (mem : Memory)
    (w : World) : Prop where
  carries : w.Carries rules
  apart : RuleBook.Apart rules
  mem_rules : r ∈ rules
  waits : r.WaitsFor p
  name : r.name.isScalar = true
  stands : p.StandsFor w.engine.book.aliases w.platform.catalog d
  remembers : ∀ m ∈ w.engine.book.machines, m.rule = r → m.Tickless ∧ m.memory d = mem

/-- A world in the course of a call that began in the world `start`: the rule goes on as it should, and
nothing but events of devices waits for it. -/
structure Watched (rules : List Rule) (p : Predicate) (r : Rule) (d : Reference) (mem : Memory)
    (start w : World) : Prop where
  steady : Steady d start w
  subscriptions : w.bus.subscriptions = [(Service.filter, .rules)]
  fed : ∀ e ∈ w.engine.pending, e.ofDevice = true
  remembers : w.Remembers (Watches p r d start.platform.now mem) start.engine.generation start.trail
    rules

variable {rules : List Rule} {p : Predicate} {r : Rule} {d : Reference} {mem : Memory}
  {start w w' : World}
  {m m' : Machine} {rest machines : List Machine} {index : Nat} {added : List Happening} {e : Event}
  {report : Report}

theorem Awaits.watched (h : start.Awaits rules p r d mem) (hattached : start.platform.attached = true)
    (hsubscriptions : start.bus.subscriptions = [(Service.filter, .rules)])
    (hpending : start.engine.pending = []) : Watched rules p r d mem start start where
  steady := .refl hattached
  subscriptions := hsubscriptions
  fed := by simp [hpending]
  remembers := ⟨Nat.le_refl _, fun _ => ⟨[], by simp, h.carries.inOrder, fun m hm hr _ => by
    obtain ⟨htickless, rfl⟩ := h.remembers m hm hr
    exact ⟨htickless, .nil _, by simp [outcomesOf], by simp [outcomesOf]⟩⟩⟩

theorem Watched.keepsToBus (h : Watched rules p r d mem start w) (hstart : start.Awaits rules p r d mem)
    (hahead : w.Ahead start.engine.generation index (m :: rest)) :
    Action.allKeepToBus m.rule.actions = true := by
  obtain ⟨_, _, hrules, _⟩ := h.remembers.since h.steady.generation
  have hm : m ∈ w.engine.book.machines := by
    apply List.mem_of_mem_drop
    rw [hahead h.steady.generation]
    exact List.mem_cons_self ..
  have hrule := List.mem_map_of_mem (f := (·.rule)) hm
  exact hstart.carries.keepsToBus m.rule (hrules ▸ hrule)

theorem Watched.store (h : Watched rules p r d mem start w) (hstart : start.Awaits rules p r d mem)
    (hahead : w.Ahead start.engine.generation index (m :: rest))
    (hsteady : Steady d start w')
    (hacts : w.Acts (Action.allKeepToBus m.rule.actions = true) w' added)
    (hattends : Attends p r d start.platform.now mem m m' added) :
    Watched rules p r d mem start (w'.storeMachine start.engine.generation index m') where
  steady := hsteady.storeMachine _ index m'
  subscriptions := hacts.subscriptions.trans h.subscriptions
  fed := by
    rw [storeMachine_pending]
    intro e he
    have hkeeps := h.keepsToBus hstart hahead
    exact (hacts.feeds hkeeps h.subscriptions e he).elim (h.fed e) id
  remembers := by
    refine h.remembers.store hstart.apart hahead (Nat.le_refl _) h.remembers.generation hacts
      hattends.rule hattends.watches fun x later hdiffer hx hr hunbroken => ?_
    exact (hx hr (List.forall_mem_append.mp hunbroken).1).pause (hattends.others _ hdiffer)

theorem Watched.passAll (h : Watched rules p r d mem start w) (hstart : start.Awaits rules p r d mem)
    (hdevice : e.ofDevice = true) (hahead : w.Ahead start.engine.generation index machines) :
    Watched rules p r d mem start
      (World.passAll (start.tickRound none) e index machines w report).1 := by
  refine passAll_keeps (fun {w index m rest} _ hw _ hahead => ?_) h h.remembers.generation hahead
  have hstands : p.StandsFor start.engine.book.aliases w.platform.catalog d := by
    rw [hw.steady.catalog]
    exact hstart.stands
  have hloads := Action.allLoadOnly_of_allKeepToBus (fun _ => False) (hw.keepsToBus hstart hahead)
  have hsteady := (law_steady d start).handle hloads start.engine.book.aliases e start.platform.now
    hw.steady
  obtain ⟨added, hacts, hattends⟩ := attends_handle (m := m) mem hstart.waits hstart.name hstands
    hdevice
  exact hw.store hstart hahead hsteady hacts hattends

theorem Watched.tickAll (h : Watched rules p r d mem start w) (hstart : start.Awaits rules p r d mem)
    (time : Option Moment) (hahead : w.Ahead start.engine.generation index machines) :
    Watched rules p r d mem start
      (World.tickAll (start.tickRound time) index machines w report).1 := by
  refine tickAll_keeps (fun {w index m rest} _ hw _ hahead => ?_) h h.remembers.generation hahead
  have hloads := Action.allLoadOnly_of_allKeepToBus (fun _ => False) (hw.keepsToBus hstart hahead)
  have hsteady := (law_steady d start).handleTick hloads (start.tickRound time).aliases
    (start.tickRound time).now hw.steady
  obtain ⟨added, hacts, hattends⟩ := attends_handleTick p r d start.platform.now mem m
    (start.tickRound time).aliases w (start.tickRound time).now
  exact hw.store hstart hahead hsteady hacts hattends

theorem Watched.quiet (h : Watched rules p r d mem start w) (hsteady : Steady d start w')
    (hsubscriptions : w'.bus.subscriptions = w.bus.subscriptions)
    (hfed : ∀ e ∈ w'.engine.pending, e.ofDevice = true)
    (hbook : w'.engine.book = w.engine.book) (htrail : w'.trail = w.trail) :
    Watched rules p r d mem start w' where
  steady := hsteady
  subscriptions := hsubscriptions.trans h.subscriptions
  fed := hfed
  remembers := h.remembers.quiet (hsteady.generation.trans h.steady.generation.symm) hbook htrail

theorem feed_watched (hstart : start.Awaits rules p r d mem) :
    Feed (·.ofDevice = true) (Watched rules p r d mem start) where
  bus queue dispatching h :=
    h.quiet ((law_steady d start).bus _ h.steady) rfl h.fed rfl rfl
  wanted h s hs e he := by
    rw [h.subscriptions, List.mem_singleton] at hs
    rwa [hs, Service.accepts_filter] at he
  enqueue {w e} hdevice h := by
    refine h.quiet ((law_steady d start).queue _ w.engine.draining h.steady) rfl ?_ rfl rfl
    intro x hx
    rcases List.mem_append.mp hx with hx | hx
    · exact h.fed x hx
    · rwa [List.mem_singleton.mp hx]
  setDraining {w} flag h :=
    h.quiet ((law_steady d start).queue w.engine.pending flag h.steady) rfl h.fed rfl rfl
  report report h := h.quiet ((law_steady d start).report report h.steady) rfl h.fed rfl rfl
  processNext {w e rest} hpending h := by
    have hfed : ∀ x ∈ e :: rest, x.ofDevice = true := hpending ▸ h.fed
    obtain ⟨hdevice, hrest⟩ := List.forall_mem_cons.mp hfed
    let taken : World := { w with engine := { w.engine with pending := rest } }
    have htaken : Watched rules p r d mem start taken :=
      h.quiet ((law_steady d start).queue rest w.engine.draining h.steady) rfl hrest rfl rfl
    have hround : w.tickRound none = start.tickRound none := by
      simp [tickRound, h.steady.aliases, h.steady.generation, h.steady.clock]
    have hone : processOne taken e =
        World.passAll (start.tickRound none) e 0 w.engine.book.machines taken {} := by
      rw [← hround]
      rfl
    rw [hone]
    exact htaken.passAll hstart hdevice fun _ => rfl

theorem Watched.noted (h : Watched rules p r d mem start w) {done : Platform × Event}
    (hsteady : Steady d start (w.noted done)) : Watched rules p r d mem start (w.noted done) := by
  have hchanged : ({ w with platform := done.1 } : World).Remembers
      (Watches p r d start.platform.now mem) start.engine.generation start.trail
      rules := h.remembers.quiet rfl rfl rfl
  rw [World.noted, if_pos h.steady.attached] at hsteady ⊢
  exact ⟨hsteady, h.subscriptions, h.fed, hchanged.mark fun m later hm hr hunbroken =>
    (hm hr (List.forall_mem_append.mp hunbroken).1).pause rfl⟩

theorem Watched.update (h : Watched rules p r d mem start w) (q : Reference) (v : Value)
    (source : String) : Watched rules p r d mem start (w.noted (w.platform.update q v source)) :=
  h.noted ((law_steady d start).update q v source h.steady)

theorem Watched.command (h : Watched rules p r d mem start w) (q : Reference) (v : Value)
    (source : String) : Watched rules p r d mem start (w.noted (w.platform.command q v source)) :=
  h.noted ((law_steady d start).command q v source h.steady)

def Call.isOrdinary : Call → Bool
  | update .. | command .. | tick _ => true
  | _ => false

/-- A rule that waits goes on as it should in every such call, however the call ends. -/
theorem Awaits.perform (fuel : Nat) {c : Call} (hcall : c.isOrdinary = true)
    (h : start.Awaits rules p r d mem) (hidle : start.Idle) :
    Watched rules p r d mem start (start.perform fuel c).1 := by
  have hwatched := h.watched hidle.atRest.wired.attached hidle.atRest.wired.subscriptions hidle.pending
  have feed := feed_watched h
  cases c with
  | update q v source => exact feed.updateState fuel q v source (hwatched.update q v source)
  | command q v source =>
    exact feed.sendCommand fuel q v source (hwatched.command q v source) fun h =>
      h.update q v source
  | tick time =>
    refine feed.tick fuel time hwatched ?_
    exact (feed.setDraining true hwatched).tickAll h time fun _ => List.drop_zero
  | _ => cases hcall

end World
end Domotics
