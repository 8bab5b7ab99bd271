import Domotics.Service
import Mathlib.Tactic.SplitIfs

/-!
What the actions of a rule can do to a world. They publish events and leave the loaded rules alone,
unless they load rules themselves; and in a world with a service on its bus, an event that an action
publishes waits behind all others, in the queue of the bus during a delivery and in that of the engine
otherwise.
-/

namespace Domotics

def Event.ofDevice (e : Event) : Bool := e.kind != .periodic

theorem Service.accepts_filter (e : Event) : Service.filter.accepts e = e.ofDevice := by
  cases hkind : e.kind <;> simp [EventFilter.accepts, Service.filter, Event.ofDevice, hkind]

namespace Happening

def published? : Happening → Option Event
  | published e => some e
  | _ => none

def acted? : Happening → Option Action
  | acted a => some a
  | _ => none

def isDeed : Happening → Bool
  | published _ | loaded .. => true
  | _ => false

/-- What can happen between the beginning and the end of a pass. -/
def isInner : Happening → Bool
  | acted _ => true
  | x => x.isDeed

def publishedIn (trail : List Happening) : List Event := trail.filterMap published?

def actedIn (trail : List Happening) : List Action := trail.filterMap acted?

@[simp] theorem publishedIn_append (t u : List Happening) :
    publishedIn (t ++ u) = publishedIn t ++ publishedIn u := List.filterMap_append

@[simp] theorem actedIn_append (t u : List Happening) :
    actedIn (t ++ u) = actedIn t ++ actedIn u := List.filterMap_append

theorem isDeed_of_mem_map_published {events : List Event} : ∀ x ∈ events.map published, x.isDeed = true := by
  intro x hx
  obtain ⟨e, _, rfl⟩ := List.mem_map.mp hx
  rfl

theorem isInner_of_isDeed {x : Happening} (h : x.isDeed = true) : x.isInner = true := by
  cases x <;> first | rfl | exact h

theorem actedIn_of_isDeed {deeds : List Happening} (h : ∀ x ∈ deeds, x.isDeed = true) : actedIn deeds = [] := by
  refine List.filterMap_eq_nil_iff.mpr fun x hx => ?_
  have hdeed := h x hx
  cases x with
  | acted a => cases hdeed
  | _ => rfl

end Happening

namespace Action

mutual

/-- Whether an action influences the rules through the bus only: it neither hands events to the engine
nor loads rules. -/
def keepsToBus : Action → Bool
  | sequence steps => allKeepToBus steps
  | process _ | reload _ => false
  | _ => true

def allKeepToBus : List Action → Bool
  | [] => true
  | a :: rest => a.keepsToBus && allKeepToBus rest

end

end Action

namespace World

open Happening

/-- The world of a service that is on the bus. No event waits on the bus unless one is being
delivered. -/
structure Wired (w : World) : Prop where
  attached : w.platform.attached = true
  subscriptions : w.bus.subscriptions = [(Service.filter, .rules)]
  queue : w.bus.dispatching = false → w.bus.queue = []

def waiting (w : World) : List Event := (w.engine.pending ++ w.bus.queue).filter (·.ofDevice)

/-- Actions make `w'` of `w`, and `inner` happens. The loaded rules stay as they are unless others are
loaded. If the actions are `plain`, they keep to the bus: none are loaded, and what is published waits
behind all else. -/
structure Acts (plain : Prop) (w w' : World) (inner : List Happening) : Prop where
  trail : w'.trail = w.trail ++ inner
  generation : w.engine.generation ≤ w'.engine.generation
  book : w'.engine.generation = w.engine.generation → w'.engine.book = w.engine.book
  draining : w'.engine.draining = w.engine.draining
  attached : w'.platform.attached = w.platform.attached
  subscriptions : w'.bus.subscriptions = w.bus.subscriptions
  dispatching : w'.bus.dispatching = w.bus.dispatching
  queue : w.bus.dispatching = false → w.bus.queue = [] → w'.bus.queue = []
  relays : plain → w.Wired → w'.engine.generation = w.engine.generation ∧
    w'.waiting = w.waiting ++ (publishedIn inner).filter (·.ofDevice)
  feeds : plain → w.bus.subscriptions = [(Service.filter, .rules)] →
    ∀ e ∈ w'.engine.pending, e ∈ w.engine.pending ∨ e.ofDevice = true

namespace Acts

variable {plain : Prop} {w w' w'' : World} {inner later : List Happening}

theorem wired (h : Acts plain w w' inner) (hw : w.Wired) : w'.Wired where
  attached := by rw [h.attached, hw.attached]
  subscriptions := by rw [h.subscriptions, hw.subscriptions]
  queue hdispatching := by
    rw [h.dispatching] at hdispatching
    exact h.queue hdispatching (hw.queue hdispatching)

theorem trans (h₁ : Acts plain w w' inner) (h₂ : Acts plain w' w'' later) :
    Acts plain w w'' (inner ++ later) where
  trail := by rw [h₂.trail, h₁.trail, List.append_assoc]
  generation := Nat.le_trans h₁.generation h₂.generation
  book hgeneration := by
    have hfirst := h₁.generation
    have hlater := h₂.generation
    rw [h₂.book (by omega), h₁.book (by omega)]
  draining := by rw [h₂.draining, h₁.draining]
  attached := by rw [h₂.attached, h₁.attached]
  subscriptions := by rw [h₂.subscriptions, h₁.subscriptions]
  dispatching := by rw [h₂.dispatching, h₁.dispatching]
  queue hdispatching hqueue := by
    apply h₂.queue _ (h₁.queue hdispatching hqueue)
    rw [h₁.dispatching, hdispatching]
  relays hplain hw := by
    obtain ⟨hgeneration, hwaiting⟩ := h₁.relays hplain hw
    obtain ⟨hgeneration', hwaiting'⟩ := h₂.relays hplain (h₁.wired hw)
    refine ⟨hgeneration'.trans hgeneration, ?_⟩
    rw [hwaiting', hwaiting, publishedIn_append, List.filter_append, List.append_assoc]
  feeds hplain hsubscriptions e he := by
    rcases h₂.feeds hplain (h₁.subscriptions.trans hsubscriptions) e he with he | hdevice
    · exact h₁.feeds hplain hsubscriptions e he
    · exact .inr hdevice

theorem mono {stricter : Prop} (h : Acts plain w w' inner) (himp : stricter → plain) :
    Acts stricter w w' inner :=
  { h with
    relays := fun hplain => h.relays (himp hplain)
    feeds := fun hplain => h.feeds (himp hplain) }

theorem frame (htrail : w'.trail = w.trail ++ inner) (hpublished : publishedIn inner = [])
    (hgeneration : w'.engine.generation = w.engine.generation)
    (hbook : w'.engine.book = w.engine.book) (hpending : w'.engine.pending = w.engine.pending)
    (hdraining : w'.engine.draining = w.engine.draining) (hbus : w'.bus = w.bus)
    (hattached : w'.platform.attached = w.platform.attached) : Acts plain w w' inner where
  trail := htrail
  generation := Nat.le_of_eq hgeneration.symm
  book _ := hbook
  draining := hdraining
  attached := hattached
  subscriptions := by rw [hbus]
  dispatching := by rw [hbus]
  queue _ hqueue := by rw [hbus, hqueue]
  relays _ _ := ⟨hgeneration, by simp [waiting, hpending, hbus, hpublished]⟩
  feeds _ _ e he := .inl (hpending ▸ he)

theorem quiet (htrail : w'.trail = w.trail) (hengine : w'.engine = w.engine) (hbus : w'.bus = w.bus)
    (hattached : w'.platform.attached = w.platform.attached) : Acts plain w w' [] := by
  apply frame _ rfl _ _ _ _ hbus hattached
  · rw [htrail, List.append_nil]
  all_goals rw [hengine]

theorem refl (w : World) : Acts plain w w [] := quiet rfl rfl rfl rfl

theorem mark (w : World) (x : Happening) (hx : x.published? = none) :
    Acts plain w (w.mark x) [x] := by
  apply frame (mark_trail w x) _ rfl rfl rfl rfl rfl rfl
  simp [publishedIn, hx]

theorem recordFire (w : World) (r : FiringRecord) :
    Acts plain w { w with engine := w.engine.recordFire r } [] := by
  refine frame ?_ rfl rfl rfl rfl rfl rfl rfl
  rw [List.append_nil]
  rfl

end Acts

theorem deferAll_eq (e : Event) (subscriptions : List (EventFilter × Listener)) (w : World) :
    ∃ reports, deferAll e subscriptions w =
      { w with
        engine := { w.engine with
          pending := w.engine.pending ++ (subscriptions.filter (·.1.accepts e)).map fun _ => e }
        journal := { w.journal with reports } } := by
  induction subscriptions generalizing w with
  | nil => exact ⟨w.journal.reports, by simp [deferAll]⟩
  | cons subscription rest ih =>
    rw [deferAll, List.foldl_cons]
    split_ifs with hf
    · obtain ⟨reports, h⟩ := ih (w.defer e)
      refine ⟨reports, h.trans ?_⟩
      simp [defer, report, Engine.enqueue, hf, List.append_assoc]
    · obtain ⟨reports, h⟩ := ih w
      refine ⟨reports, h.trans ?_⟩
      simp [hf]

theorem foldl_deferAll_eq (events : List Event) (subscriptions : List (EventFilter × Listener))
    (w : World) :
    ∃ pending reports, events.foldl (fun w e => deferAll e subscriptions w) w =
      { w with engine := { w.engine with pending }, journal := { w.journal with reports } } := by
  induction events generalizing w with
  | nil => exact ⟨w.engine.pending, w.journal.reports, rfl⟩
  | cons e rest ih =>
    obtain ⟨reports, hfirst⟩ := deferAll_eq e subscriptions w
    obtain ⟨pending, reports', hrest⟩ := ih (deferAll e subscriptions w)
    refine ⟨pending, reports', ?_⟩
    rw [List.foldl_cons, hrest, hfirst]

theorem acts_enqueue (w : World) (e : Event) (hdispatching : w.bus.dispatching = true) :
    Acts True w { w.mark (.published e) with bus := w.bus.enqueue e } [.published e] where
  trail := by simp [trail, mark]
  generation := Nat.le_refl _
  book _ := rfl
  draining := rfl
  attached := rfl
  subscriptions := rfl
  dispatching := rfl
  queue h := by simp [hdispatching] at h
  relays _ _ := by simp [waiting, publishedIn, published?]
  feeds _ _ _ he := .inl he

/-- An event that the bus of a service delivers while the engine is at work joins its queue. -/
theorem waiting_deferAll (w : World) (e : Event) (hqueue : w.bus.queue = []) :
    (deferAll e [(Service.filter, .rules)] w).waiting = w.waiting ++ [e].filter (·.ofDevice) := by
  obtain ⟨reports, h⟩ := deferAll_eq e [(Service.filter, .rules)] w
  rw [h]
  cases hdevice : e.ofDevice <;> simp [waiting, hqueue, Service.accepts_filter, hdevice]

theorem ofDevice_of_mem_foldl_deferAll {events : List Event} {w : World} :
    ∀ e ∈ (events.foldl (fun w e => deferAll e [(Service.filter, .rules)] w) w).engine.pending,
      e ∈ w.engine.pending ∨ e.ofDevice = true := by
  induction events generalizing w with
  | nil => exact fun e he => .inl he
  | cons x rest ih =>
    intro e he
    rcases ih e he with he | hdevice
    · obtain ⟨reports, h⟩ := deferAll_eq x [(Service.filter, .rules)] w
      simp only [h] at he
      cases hdevice : x.ofDevice <;> simp [Service.accepts_filter, hdevice] at he
      · exact .inl he
      · rcases he with he | rfl
        · exact .inl he
        · exact .inr hdevice
    · exact .inr hdevice

theorem acts_deliver (w : World) (e : Event) (hdispatching : w.bus.dispatching = false) :
    Acts True w ((w.bus.queue ++ [e]).foldl (fun v e => deferAll e w.bus.subscriptions v)
      { w.mark (.published e) with bus := { w.bus with queue := [] } }) [.published e] := by
  let start : World := { w.mark (.published e) with bus := { w.bus with queue := [] } }
  obtain ⟨pending, reports, hfold⟩ := foldl_deferAll_eq (w.bus.queue ++ [e]) w.bus.subscriptions
    start
  have hwaiting (hw : w.Wired) : ((w.bus.queue ++ [e]).foldl
      (fun v e => deferAll e w.bus.subscriptions v) start).waiting =
        w.waiting ++ [e].filter (·.ofDevice) := by
    have hstart : start.waiting = w.waiting := by
      simp [start, waiting, hw.queue hdispatching]
    rw [hw.queue hdispatching, hw.subscriptions, ← hstart]
    exact waiting_deferAll start e rfl
  have hfeeds (hsubscriptions : w.bus.subscriptions = [(Service.filter, .rules)]) :
      ∀ x ∈ ((w.bus.queue ++ [e]).foldl (fun v e => deferAll e w.bus.subscriptions v)
        start).engine.pending, x ∈ w.engine.pending ∨ x.ofDevice = true := by
    rw [hsubscriptions]
    exact ofDevice_of_mem_foldl_deferAll
  refine ⟨?_, ?_, ?_, ?_, ?_, ?_, ?_, ?_, fun _ hw => ⟨?_, hwaiting hw⟩, fun _ => hfeeds⟩
  all_goals rw [hfold]
  · simp [start, trail, mark]
  all_goals simp [start]

theorem acts_publishWithin (w : World) (e : Event) :
    ∃ events : List Event, Acts True w (w.publishWithin e) (events.map .published) := by
  cases hattached : w.platform.attached with
  | false => exact ⟨[], by simpa [publishWithin, hattached] using Acts.refl w⟩
  | true =>
    refine ⟨[e], ?_⟩
    cases hdispatching : w.bus.dispatching with
    | true =>
      have heq : w.publishWithin e = { w.mark (.published e) with bus := w.bus.enqueue e } := by
        simp [publishWithin, hattached, hdispatching]
      rw [heq]
      exact acts_enqueue w e hdispatching
    | false =>
      have heq : w.publishWithin e = (w.bus.queue ++ [e]).foldl
          (fun v e => deferAll e w.bus.subscriptions v)
          { w.mark (.published e) with bus := { w.bus with queue := [] } } := by
        simp [publishWithin, hattached, hdispatching, Bus.enqueue]
      rw [heq]
      exact acts_deliver w e hdispatching

theorem acts_updateWithin (w : World) (r : Reference) (v : Value) (source : String) :
    ∃ events : List Event, Acts True w (w.updateWithin r v source) (events.map .published) := by
  let start : World := { w with platform := (w.platform.update r v source).1 }
  have hstart : Acts True w start [] := .quiet rfl rfl rfl rfl
  obtain ⟨events, hpublish⟩ := acts_publishWithin start (w.platform.update r v source).2
  exact ⟨events, hstart.trans hpublish⟩

theorem acts_commandWithin (w : World) (r : Reference) (v : Value) (source : String) :
    ∃ events : List Event, Acts True w (w.commandWithin r v source) (events.map .published) := by
  let start : World := { w with platform := (w.platform.command r v source).1 }
  have hstart : Acts True w start [] := .quiet rfl rfl rfl rfl
  obtain ⟨events, hpublish⟩ := acts_publishWithin start (w.platform.command r v source).2
  have hsend := hstart.trans hpublish
  obtain ⟨later, hset⟩ := acts_updateWithin
    (start.publishWithin (w.platform.command r v source).2) r v source
  have heq : w.commandWithin r v source =
      if (start.publishWithin (w.platform.command r v source).2).platform.autoupdate then
        (start.publishWithin (w.platform.command r v source).2).updateWithin r v source
      else start.publishWithin (w.platform.command r v source).2 := rfl
  rw [heq]
  split_ifs
  · refine ⟨events ++ later, ?_⟩
    rw [List.map_append]
    exact hsend.trans hset
  · exact ⟨events, hsend⟩

/-- Loading anew begins a new generation, or changes nothing. -/
theorem acts_load (w : World) (rs : RuleSet) (now : Option Moment) :
    Acts False w (w.load rs now).1 [] := by
  rw [load, Engine.load]
  cases RuleBook.build rs (now.getD w.platform.now) w.platform.solar with
  | error fault => exact Acts.quiet rfl rfl rfl rfl
  | ok book => exact {
      trail := by simp [trail]
      generation := Nat.le_succ _
      book := fun h => absurd h (Nat.succ_ne_self _)
      draining := rfl
      attached := rfl
      subscriptions := rfl
      dispatching := rfl
      queue := fun _ hqueue => hqueue
      relays := False.elim
      feeds := False.elim }

theorem reload_keeps {P : World → Prop} {w : World} (now : Option Moment)
    (hmark : ∀ {w : World} (x : Happening), x.published? = none → P w → P (w.mark x))
    (h : P (w.load w.lastRuleSet now).1) : P (w.reload now).1 := by
  rw [reload]
  rcases hload : w.load w.lastRuleSet now with ⟨v, fault | ⟨⟩⟩
  · rwa [hload] at h
  · rw [hload] at h
    exact hmark _ rfl h

theorem acts_reload (w : World) (now : Option Moment) :
    ∃ deeds, Acts False w (w.reload now).1 deeds ∧ ∀ x ∈ deeds, x.isDeed = true := by
  have h := acts_load w w.lastRuleSet now
  rw [reload]
  rcases hload : w.load w.lastRuleSet now with ⟨v, fault | ⟨⟩⟩
  · rw [hload] at h
    exact ⟨[], h, by simp⟩
  · rw [hload] at h
    refine ⟨[.loaded (now.getD w.platform.now) w.platform.now], h.trans (.mark v _ rfl), ?_⟩
    simp [isDeed]

end World

namespace FiringState

open World

theorem acts_dispatch (s : FiringState) (target : ActionTarget) (v : Value)
    (act : World → Reference → World)
    (hact : ∀ w r, ∃ events : List Event, Acts True w (act w r) (events.map .published)) :
    ∃ events : List Event, Acts True s.world (s.dispatch target v act).1.world
      (events.map .published) := by
  rw [dispatch]
  split
  · exact ⟨[], .refl s.world⟩
  · exact ⟨[], .refl s.world⟩
  · split
    · exact ⟨[], .refl s.world⟩
    · exact hact s.world _

theorem acts_command (s : FiringState) (target : ActionTarget) (v : Value) :
    ∃ events : List Event, Acts True s.world (s.command target v).1.world (events.map .published) :=
  s.acts_dispatch target v _ fun w r => acts_commandWithin w r v "platform"

theorem acts_update (s : FiringState) (target : ActionTarget) (v : Value) :
    ∃ events : List Event, Acts True s.world (s.update target v).1.world (events.map .published) :=
  s.acts_dispatch target v _ fun w r => acts_updateWithin w r v "platform"

theorem acts_logged {α : Type} {plain : Prop} {w : World} {inner : List Happening}
    (line : α → LogLine) (out : FiringState × Result α) (h : Acts plain w out.1.world inner) :
    Acts plain w (logged line out).1.world inner := by
  rcases out with ⟨s, fault | a⟩
  · exact h
  · have hnote : Acts plain s.world (s.world.note (line a)) [] := .quiet rfl rfl rfl rfl
    have hboth := h.trans hnote
    rw [List.append_nil] at hboth
    exact hboth

theorem acts_notify (s : FiringState) (template : Document) :
    Acts True s.world (s.notify template).1.world [] := by
  rw [notify]
  split
  · exact .refl s.world
  · split
    · exact .quiet rfl rfl rfl rfl
    · exact .refl s.world

theorem acts_count (s : FiringState) (store key : Document) :
    Acts True s.world (s.count store key).1.world [] := by
  rw [count]
  split
  · exact .refl s.world
  · dsimp only
    split
    · exact .quiet rfl rfl rfl rfl
    · exact .refl s.world

end FiringState

namespace Action

open World FiringState Happening

mutual

/-- What an action does to the world: it publishes some events and may load rules, and nothing else happens. -/
theorem acts_run (s : FiringState) (a : Action) : ∃ deeds,
    Acts (a.keepsToBus = true) s.world (run s a).1.world deeds ∧ ∀ x ∈ deeds, x.isDeed = true := by
  cases a with
  | command target v =>
    obtain ⟨events, h⟩ := s.acts_command (.spec target) v
    exact ⟨_, h.mono fun _ => trivial, isDeed_of_mem_map_published⟩
  | update target v =>
    obtain ⟨events, h⟩ := s.acts_update (.spec target) v
    exact ⟨_, h.mono fun _ => trivial, isDeed_of_mem_map_published⟩
  | notify template => exact ⟨[], (s.acts_notify template).mono fun _ => trivial, by simp⟩
  | counter store key => exact ⟨[], (s.acts_count store key).mono fun _ => trivial, by simp⟩
  | sequence steps => exact acts_runAll s steps
  | fail message => exact ⟨[], .refl s.world, by simp⟩
  | record => exact ⟨[], .quiet rfl rfl rfl rfl, by simp⟩
  | send target v =>
    obtain ⟨events, h⟩ := s.acts_command target v
    exact ⟨_, acts_logged .dispatched _ (h.mono fun _ => trivial), isDeed_of_mem_map_published⟩
  | set target v =>
    obtain ⟨events, h⟩ := s.acts_update target v
    exact ⟨_, acts_logged .dispatched _ (h.mono fun _ => trivial), isDeed_of_mem_map_published⟩
  | resolve spec type => exact ⟨[], acts_logged .resolved _ (.refl s.world), by simp⟩
  | process event =>
    refine ⟨[], ?_, by simp⟩
    exact {
      trail := by simp [run, FiringState.map, trail, note]
      generation := Nat.le_refl _
      book := fun _ => rfl
      draining := rfl
      attached := rfl
      subscriptions := rfl
      dispatching := rfl
      queue := fun _ hqueue => hqueue
      relays := fun h => by simp [keepsToBus] at h
      feeds := fun h => by simp [keepsToBus] at h }
  | tick => exact ⟨[], .quiet rfl rfl rfl rfl, by simp⟩
  | reload now =>
    obtain ⟨deeds, h, hdeeds⟩ := acts_reload s.world now
    exact ⟨deeds, h.mono (by simp [keepsToBus]), hdeeds⟩
  | withoutServices => exact ⟨[], .refl s.world, by simp⟩

theorem acts_runAll (s : FiringState) (actions : List Action) : ∃ deeds,
    Acts (allKeepToBus actions = true) s.world (runAll s actions).1.world deeds ∧
      ∀ x ∈ deeds, x.isDeed = true := by
  cases actions with
  | nil => exact ⟨[], .refl s.world, by simp⟩
  | cons a rest =>
    obtain ⟨deeds, hfirst, hdeeds⟩ := acts_run s a
    have hkeeps (h : allKeepToBus (a :: rest) = true) :
        a.keepsToBus = true ∧ allKeepToBus rest = true := by simpa [allKeepToBus] using h
    have hfirst := hfirst.mono fun h => (hkeeps h).1
    rw [runAll]
    rcases hr : run s a with ⟨t, fault | ⟨⟩⟩
    · rw [hr] at hfirst
      exact ⟨deeds, hfirst, hdeeds⟩
    · rw [hr] at hfirst
      obtain ⟨later, hrest, hlater⟩ := acts_runAll t rest
      exact ⟨deeds ++ later, hfirst.trans (hrest.mono fun h => (hkeeps h).2),
        List.forall_mem_append.mpr ⟨hdeeds, hlater⟩⟩

end

theorem acts_runEach (s : FiringState) (actions : List Action) :
    ∃ inner, Acts (allKeepToBus actions = true) s.world (runEach s actions).1.world inner ∧
      (∀ x ∈ inner, x.isInner = true) ∧ Happening.actedIn inner = actions := by
  induction actions generalizing s with
  | nil => exact ⟨[], .refl s.world, by simp, rfl⟩
  | cons a rest ih =>
    have hkeeps (h : allKeepToBus (a :: rest) = true) :
        a.keepsToBus = true ∧ allKeepToBus rest = true := by simpa [allKeepToBus] using h
    obtain ⟨deeds, hrun, hdeeds⟩ := acts_run s a
    have hfirst : Acts (allKeepToBus (a :: rest) = true) s.world (perform s a).1.world (deeds ++ [.acted a]) :=
      (hrun.mono fun h => (hkeeps h).1).trans (.mark _ (.acted a) rfl)
    obtain ⟨later, hrest, hinner, hacted⟩ := ih (perform s a).1
    have hworld : (runEach s (a :: rest)).1 = (runEach (perform s a).1 rest).1 := by
      rw [runEach]
      rcases perform s a with ⟨t, fault | ⟨⟩⟩ <;> rfl
    refine ⟨(deeds ++ [.acted a]) ++ later, ?_, ?_, ?_⟩
    · rw [hworld]
      exact hfirst.trans (hrest.mono fun h => (hkeeps h).2)
    · intro x hx
      simp only [List.mem_append, List.mem_singleton] at hx
      rcases hx with (hx | rfl) | hx
      · exact isInner_of_isDeed (hdeeds x hx)
      · rfl
      · exact hinner x hx
    · rw [actedIn_append, actedIn_append, actedIn_of_isDeed hdeeds, hacted]
      rfl

end Action
end Domotics
