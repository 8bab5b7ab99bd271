import Domotics.Proofs.Run.Ease
import Domotics.Proofs.Service.Completion

/-!
A service hears its bus. Whatever is asked of it, and whether it does it or not, it is subscribed to its bus once or
not at all; and it is once it has started an engine and has loaded its rules with it. From then on each event of a
device that is published comes to its rules once, and as long as they do not break each of them evaluates it once.
But if the rules that it keeps cannot be loaded when it starts its first engine, it has an engine, and is not
subscribed.
-/

namespace Domotics

open Happening

namespace Turn

def arrived? : Turn → Option (Event × Bool)
  | joined e fromBus => some (e, fromBus)
  | _ => none

def arrivalsIn (turns : List Turn) : List (Event × Bool) := turns.filterMap arrived?

theorem map_arrivalsIn (turns : List Turn) : (arrivalsIn turns).map (·.1) = joinedIn turns := by
  rw [arrivalsIn, List.map_filterMap, joinedIn]
  congr 1
  funext t
  cases t <;> rfl

theorem filter_arrivalsIn (turns : List Turn) :
    ((arrivalsIn turns).filter (·.2)).map (·.1) = fromBusIn turns := by
  induction turns with
  | nil => rfl
  | cons t rest ih =>
    rw [fromBusIn_cons, ← ih]
    cases t with
    | joined e fromBus => cases fromBus <;> rfl
    | handed | ticked | renewed => rfl

/-- When no pass breaks and no rules are loaded, each event of a device that is handed to the rules is evaluated by
all of them, and no other is. -/
theorem Runs.evaluated {l l' : Line} {turns : List Turn} (h : Runs l turns l')
    (hsame : ∀ t ∈ turns, t.renews = false) (hwhole : ∀ x ∈ passesIn turns, x.2.2 = none) :
    (passesIn turns).filter (·.2.1.ofDevice) =
      ((handedIn turns).filter (·.ofDevice)).flatMap fun e => l.rules.map (·, e, none) := by
  induction h with
  | nil => rfl
  | @cons l mid l' turn turns first _ ih =>
    obtain ⟨hone, hothers⟩ := List.forall_mem_cons.mp hsame
    rw [passesIn, List.flatMap_cons, ← passesIn] at hwhole ⊢
    obtain ⟨hmine, hlater⟩ := List.forall_mem_append.mp hwhole
    have hrest := ih hothers hlater
    rw [List.filter_append, handedIn_cons, List.filter_append, List.flatMap_append, hrest]
    cases first with
    | joined => rfl
    | @handed rules e rest ends hturn =>
      have hends : ends = rules.map (·, none) :=
        hturn.map_fst fun x hx => hmine (x.1, e, x.2) (List.mem_map_of_mem hx)
      rw [hends]
      cases hdevice : e.ofDevice <;> simp [passes, handed?, hdevice, Function.comp_def]
    | @ticked _ now ends =>
      have hnone : Event.ofDevice (.tick now) = false := rfl
      simp [passes, handed?, List.filter_map, Function.comp_def, hnone]
    | renewed => cases hone

end Turn

open Turn

/-- What some rules make of a time in which `added` happens and `arrivals` come to them, some of these from the bus:
the events of devices that are published come to them, each once, and all that come are evaluated one after the
other, each by every rule once. -/
structure Hears (rules : List Document) (added : List Happening) (arrivals : List (Event × Bool)) : Prop where
  published : (arrivals.filter (·.2)).map (·.1) = devicesIn added
  evaluated : (endedIn added).filter (·.2.1.ofDevice) =
    (arrivals.filter (·.1.ofDevice)).flatMap fun x => rules.map (·, x.1, none)

namespace World

variable {w w' : World} {turns : List Turn} {added : List Happening}

theorem copies_service (events : List Event) :
    copies [(Service.filter, .rules)] events = events.filter (·.ofDevice) := by
  induction events with
  | nil => rfl
  | cons e rest ih =>
    rw [copies] at ih
    rw [copies, List.flatMap_cons, ih]
    cases hdevice : e.ofDevice <;> simp [Service.accepts_filter, hdevice]

theorem ComesTo.hears (h : w.ComesTo turns w') (hsubscriptions : w.bus.subscriptions = [(Service.filter, .rules)])
    (htrail : w'.trail = w.trail ++ added) (hgeneration : w'.engine.generation = w.engine.generation)
    (hwhole : ∀ x ∈ endedIn added, x.2.2 = none) : ∃ arrivals, Hears w.engine.ruleNames added arrivals := by
  obtain ⟨other, hflows, hfrom⟩ := h.flows
  obtain rfl : other = added := List.append_cancel_left (hflows.trail.symm.trans htrail)
  rw [hsubscriptions, copies_service] at hfrom
  rw [hflows.ended] at hwhole
  have hfaults : faultsIn turns = [] := List.filterMap_eq_nil_iff.mpr hwhole
  have hevaluated := hflows.line.evaluated (hflows.renews_eq_false hgeneration) hwhole
  rcases h.done hfaults with rfl | hpending
  · exact ⟨[], hfrom, by rw [hflows.ended]; rfl⟩
  · have hhanded := hflows.inOrder hgeneration
    rw [hpending, List.append_nil] at hhanded
    refine ⟨w.engine.pending.map (·, false) ++ arrivalsIn turns, ?_, ?_⟩
    · rw [List.filter_append, List.map_append, filter_arrivalsIn, hfrom]
      simp [devicesIn, List.filter_map, Function.comp_def]
    · have hall : (w.engine.pending.map (·, false) ++ arrivalsIn turns).map (·.1) = handedIn turns := by
        rw [hhanded, List.map_append, map_arrivalsIn, List.map_map]
        simp [Function.comp_def]
      rw [hflows.ended, hevaluated, ← hall, List.filter_map, List.flatMap_map]
      rfl

end World

namespace Service

/-- What can be done with a service on one bus: an action is registered, rules are loaded, the service is attached
to the bus or is given its platform, or it takes a call from outside. -/
inductive Operation where
  | registerAction (name : String) (a : Action)
  | loadConfig (config : Document)
  | loadRuleSet (rs : RuleSet)
  | reload
  | attach
  | setPlatform
  | call (c : World.Call)

def Operation.starts (s : Service) : Operation → Bool
  | attach => s.hasPlatform
  | setPlatform => s.hasBus
  | _ => false

def operate (fuel : Nat) (s : Service) : Operation → Service × Ending Unit
  | .registerAction name a => match s.registerAction name a with
    | .ok s => (s, .returned ())
    | .error fault => (s, .raised fault)
  | .loadConfig config => ((s.loadConfig config).1, .ofResult ((s.loadConfig config).2.map fun _ => ()))
  | .loadRuleSet rs => ((s.loadRuleSet rs).1, .ofResult (s.loadRuleSet rs).2)
  | .reload => (s.reload.1, .ofResult s.reload.2)
  | .attach => (s.attach.1, .ofResult s.attach.2)
  | .setPlatform => (s.setPlatform.1, .ofResult s.setPlatform.2)
  | .call c => s.perform fuel c

/-- Operations one after the other. Of each it is said whether it starts an engine, and how it ends. -/
def operateAll (fuel : Nat) : Service → List Operation → Service × List (Bool × Ending Unit)
  | s, [] => (s, [])
  | s, op :: rest =>
    let out := s.operate fuel op
    let later := operateAll fuel out.1 rest
    (later.1, (op.starts s, out.2) :: later.2)

/-- A service between operations: it has an engine only on a bus and with a platform, and it is subscribed to the
bus, as it says itself, once or not at all. -/
structure Connected (s : Service) : Prop where
  quiet : s.world.Quiet
  subscriptions : s.world.bus.subscriptions = if s.subscribed then [(filter, .rules)] else []
  subscribed : s.subscribed = true → s.running = true
  hasBus : s.running = true → s.hasBus = true
  hasPlatform : s.running = true → s.hasPlatform = true

structure Leaves (s s' : Service) (starts : Bool) (ending : Ending Unit) : Prop where
  connected : s'.Connected
  running : s'.running = true ↔ s.running = true ∨ starts = true
  subscribed : s'.subscribed = true ↔ s.subscribed = true ∨ starts = true ∧ ending = .returned ()

section

variable {s s' : Service} (fuel : Nat)

structure Unattached (s : Service) : Prop where
  quiet : s.world.Quiet
  subscriptions : s.world.bus.subscriptions = []
  hasBus : s.hasBus = false
  running : s.running = false
  subscribed : s.subscribed = false

theorem Unattached.connected (h : s.Unattached) : s.Connected where
  quiet := h.quiet
  subscriptions := by simp [h.subscriptions, h.subscribed]
  subscribed := by simp [h.subscribed]
  hasBus := by simp [h.running]
  hasPlatform := by simp [h.running]

theorem Connected.keep (h : s.Connected) (ending : Ending Unit) (hquiet : s'.world.Quiet)
    (hsubscriptions : s'.world.bus.subscriptions = s.world.bus.subscriptions) (hrunning : s'.running = s.running)
    (hsubscribed : s'.subscribed = s.subscribed) (hbus : s'.hasBus = s.hasBus)
    (hplatform : s'.hasPlatform = s.hasPlatform) : s.Leaves s' false ending where
  connected := {
    quiet := hquiet
    subscriptions := by rw [hsubscriptions, hsubscribed, h.subscriptions]
    subscribed := by rw [hsubscribed, hrunning]; exact h.subscribed
    hasBus := by rw [hrunning, hbus]; exact h.hasBus
    hasPlatform := by rw [hrunning, hplatform]; exact h.hasPlatform }
  running := by simp [hrunning]
  subscribed := by simp [hsubscribed]

theorem Connected.load (h : s.Connected) (rs : RuleSet) (ruleSet : Option RuleSet) (ending : Ending Unit) :
    s.Leaves { s with world := (s.world.load rs none).1, ruleSet } false ending :=
  h.keep ending (h.quiet.load rs none) (by rw [World.load]; split <;> rfl) rfl rfl rfl rfl

theorem Connected.loadRuleSet (h : s.Connected) (rs : RuleSet) (ending : Ending Unit) :
    s.Leaves (s.loadRuleSet rs).1 false ending := by
  rw [Service.loadRuleSet]
  split
  · exact h.keep ending h.quiet rfl rfl rfl rfl rfl
  · have hkeep (ruleSet : Option RuleSet) := h.load rs ruleSet ending
    split
    all_goals rename_i hload
    all_goals rw [hload] at hkeep
    · exact hkeep (some rs)
    · exact hkeep s.ruleSet

def renewed (s : Service) : Service :=
  { s with
    world := { s.world with platform := { s.world.platform with attached := true }, engine := {} }
    running := true }

def subscribe (s : Service) : Service :=
  if s.subscribed then s
  else { s with
    subscribed := true
    world := { s.world with bus := s.world.bus.subscribe filter .rules } }

theorem start_eq (s : Service) : s.start = match s.ruleSet with
    | none => (s.renewed.subscribe, .ok ())
    | some rs => match s.renewed.world.load rs none with
      | (world, .ok ()) => (subscribe { s.renewed with world }, .ok ())
      | (world, .error fault) => ({ s.renewed with world }, .error fault) := rfl

theorem Connected.renewed (h : s.Connected) (hbus : s.hasBus = true) (hplatform : s.hasPlatform = true) :
    s.renewed.Connected :=
  ⟨⟨rfl, h.quiet.dispatching, h.quiet.queue⟩, h.subscriptions, fun _ => rfl, fun _ => hbus, fun _ => hplatform⟩

theorem subscribed_subscribe (s : Service) : s.subscribe.subscribed = true ∧ s.subscribe.running = s.running := by
  rw [subscribe]
  split
  · next hsubscribed => exact ⟨hsubscribed, rfl⟩
  · exact ⟨rfl, rfl⟩

theorem Connected.subscribe (h : s.Connected) (hrunning : s.running = true) : s.subscribe.Connected := by
  rw [Service.subscribe]
  split
  · exact h
  · next hnot =>
    have hnone : s.world.bus.subscriptions = [] := by rw [h.subscriptions, if_neg hnot]
    exact {
      quiet := ⟨h.quiet.draining, h.quiet.dispatching, h.quiet.queue⟩
      subscriptions := by simp [Bus.subscribe, hnone]
      subscribed := fun _ => hrunning
      hasBus := h.hasBus
      hasPlatform := h.hasPlatform }

/-- A start that ends without a fault leaves the service subscribed; one that does not leaves it with an engine. -/
theorem Connected.start (h : s.Connected) (hbus : s.hasBus = true) (hplatform : s.hasPlatform = true) :
    s.Leaves s.start.1 true (.ofResult s.start.2) := by
  have hrenewed := h.renewed hbus hplatform
  have hdone {s' : Service} (h' : s'.Connected) (hrunning : s'.running = true) :
      s.Leaves s'.subscribe true (.returned ()) := by
    obtain ⟨hsubscribed, hsame⟩ := s'.subscribed_subscribe
    exact ⟨h'.subscribe hrunning, by simp [hsame, hrunning], by simp [hsubscribed]⟩
  rw [start_eq]
  cases s.ruleSet with
  | none => exact hdone hrenewed rfl
  | some rs =>
    have hload := (hrenewed.load rs s.renewed.ruleSet (.returned ())).connected
    rcases hout : s.renewed.world.load rs none with ⟨world, fault | ⟨⟩⟩
    all_goals rw [hout] at hload
    all_goals simp only [hout]
    · exact ⟨hload, by simp [Service.renewed], by simp [Service.renewed, Ending.ofResult]⟩
    · exact hdone hload rfl

theorem Connected.attach (h : s.Connected) : s.Leaves s.attach.1 s.hasPlatform (.ofResult s.attach.2) := by
  have hbus : ({ s with hasBus := true } : Service).Connected :=
    ⟨h.quiet, h.subscriptions, h.subscribed, fun _ => rfl, h.hasPlatform⟩
  by_cases hplatform : s.hasPlatform = true
  · have hstart := hbus.start rfl hplatform
    rw [show s.attach = Service.start { s with hasBus := true } from if_pos hplatform]
    exact ⟨hstart.connected, hstart.running.trans (by simp [hplatform]),
      hstart.subscribed.trans (by simp [hplatform])⟩
  · rw [show s.attach = ({ s with hasBus := true }, .ok ()) from if_neg hplatform]
    exact ⟨hbus, by simp [hplatform], by simp [hplatform]⟩

theorem Connected.setPlatform (h : s.Connected) :
    s.Leaves s.setPlatform.1 s.hasBus (.ofResult s.setPlatform.2) := by
  have hplatform : ({ s with hasPlatform := true } : Service).Connected :=
    ⟨h.quiet, h.subscriptions, h.subscribed, h.hasBus, fun _ => rfl⟩
  by_cases hbus : s.hasBus = true
  · have hstart := hplatform.start hbus rfl
    rw [show s.setPlatform = Service.start { s with hasPlatform := true } from if_pos hbus]
    exact ⟨hstart.connected, hstart.running.trans (by simp [hbus]), hstart.subscribed.trans (by simp [hbus])⟩
  · rw [show s.setPlatform = ({ s with hasPlatform := true }, .ok ()) from if_neg hbus]
    exact ⟨hplatform, by simp [hbus], by simp [hbus]⟩

theorem perform_cases (s : Service) (c : World.Call) :
    (∃ reports, (s.perform fuel c).1 = { s with
        world := { (s.world.perform fuel c).1 with
          journal := { (s.world.perform fuel c).1.journal with reports } } } ∧
        (s.perform fuel c).2 = (s.world.perform fuel c).2) ∨
      (s.perform fuel c).1 = s := by
  by_cases hrunning : s.running = true
  · cases c with
    | event e =>
      rw [perform, handle, World.perform]
      rcases s.world.processEvent fuel e with ⟨next, report | fault | _⟩
      all_goals simp [hrunning, Ending.map]
      all_goals exact .inl ⟨_, rfl⟩
    | tick now =>
      rw [perform, Service.tick, World.perform]
      rcases s.world.tick fuel now with ⟨next, report | fault | _⟩
      all_goals simp [hrunning, Ending.map]
      all_goals exact .inl ⟨_, rfl⟩
    | publish | update | command | adjust => exact .inl ⟨_, rfl, rfl⟩
  · cases c with
    | event e => exact .inr (by simp [perform, handle, hrunning])
    | tick now => exact .inr (by simp [perform, Service.tick, hrunning])
    | publish | update | command | adjust => exact .inl ⟨_, rfl, rfl⟩

/-- Whatever is published in a call that ends comes to the line of the rules, once for each subscription. -/
theorem Connected.rested (h : s.Connected) (c : World.Call) (hending : (s.perform fuel c).2.settles = true) :
    s.world.Rested (s.perform fuel c).1.world := by
  rcases s.perform_cases fuel c with ⟨reports, heq, hsame⟩ | heq
  · rw [hsame] at hending
    have hrested := World.rested_perform fuel h.quiet c (Ending.settles_iff.mp hending)
    rw [heq]
    exact hrested.trans (hrested.2.rested rfl rfl rfl)
  · rw [heq]
    exact h.quiet.rested rfl rfl rfl

theorem Connected.perform (h : s.Connected) (c : World.Call) (hending : (s.perform fuel c).2.settles = true) :
    s.Leaves (s.perform fuel c).1 false (s.perform fuel c).2 := by
  obtain ⟨⟨turns, hanswers⟩, hquiet⟩ := h.rested fuel c hending
  obtain ⟨added, hflows, -⟩ := hanswers.flows
  have hsubscriptions := hflows.subscriptions
  rcases s.perform_cases fuel c with ⟨reports, heq, -⟩ | heq
  all_goals rw [heq] at hquiet hsubscriptions ⊢
  · exact h.keep _ hquiet hsubscriptions rfl rfl rfl rfl
  · exact h.keep _ hquiet hsubscriptions rfl rfl rfl rfl

theorem Connected.operate (h : s.Connected) (op : Operation) (hending : (s.operate fuel op).2.settles = true) :
    s.Leaves (s.operate fuel op).1 (op.starts s) (s.operate fuel op).2 := by
  cases op with
  | registerAction name a =>
    rw [Service.operate, registerAction]
    split
    · next hregistered =>
      split at hregistered <;> cases hregistered
      exact h.keep _ h.quiet rfl rfl rfl rfl rfl
    · exact h.keep _ h.quiet rfl rfl rfl rfl rfl
  | loadConfig config =>
    rw [Service.operate, loadConfig]
    split
    · exact h.keep _ h.quiet rfl rfl rfl rfl rfl
    · exact h.loadRuleSet _ _
  | loadRuleSet rs => exact h.loadRuleSet rs _
  | reload =>
    rw [Service.operate, reload]
    split
    · next rs _ hkept => exact h.load rs s.ruleSet _
    · exact h.keep _ h.quiet rfl rfl rfl rfl rfl
  | attach => exact h.attach
  | setPlatform => exact h.setPlatform
  | call c => exact h.perform fuel c hending

/-- After operations that end, a service has an engine if one of them has started one, and it is subscribed if one
of them has done so without a fault. -/
theorem Connected.operateAll (h : s.Connected) (ops : List Operation)
    (hends : ∀ x ∈ (s.operateAll fuel ops).2, x.2.settles = true) :
    (s.operateAll fuel ops).1.Connected ∧
      ((s.operateAll fuel ops).1.running = true ↔
        s.running = true ∨ ∃ x ∈ (s.operateAll fuel ops).2, x.1 = true) ∧
      ((s.operateAll fuel ops).1.subscribed = true ↔
        s.subscribed = true ∨ ∃ x ∈ (s.operateAll fuel ops).2, x.1 = true ∧ x.2 = .returned ()) := by
  induction ops generalizing s with
  | nil => exact ⟨h, by simp [Service.operateAll], by simp [Service.operateAll]⟩
  | cons op rest ih =>
    obtain ⟨hfirst, hothers⟩ := List.forall_mem_cons.mp hends
    have hone := h.operate fuel op hfirst
    obtain ⟨hconnected, hrunning, hsubscribed⟩ := ih hone.connected hothers
    refine ⟨hconnected, hrunning.trans ?_, hsubscribed.trans ?_⟩
    · rw [hone.running]
      simp [Service.operateAll, or_assoc]
    · rw [hone.subscribed]
      simp [Service.operateAll, or_assoc]

/-- Whatever is done with a service on one bus and however it ends: it has an engine as soon as one has been started,
and as soon as one has been started without a fault, it hears the bus. Each event of a device that is published then
comes to its rules, in order and once; and unless a rule breaks or loads rules, each rule evaluates it once. Before
that nothing that is published comes to them. -/
theorem hears_its_bus {fresh : Service} (h : fresh.Unattached) (ops : List Operation)
    (hends : ∀ x ∈ (fresh.operateAll fuel ops).2, x.2.settles = true) :
    let s := (fresh.operateAll fuel ops).1
    let starts := (fresh.operateAll fuel ops).2.filter (·.1)
    (s.running = true ↔ starts ≠ []) ∧
      ∀ (count : Nat) (c : World.Call), (s.perform count c).2.settles = true → ∃ turns added,
        s.world.Flows turns (s.perform count c).1.world added ∧
          ((∃ x ∈ starts, x.2 = .returned ()) → fromBusIn turns = devicesIn added ∧
            ((∀ x ∈ endedIn added, x.2.2 = none) →
              (s.perform count c).1.world.engine.generation = s.world.engine.generation →
              ∃ arrivals, Hears s.ruleNames added arrivals)) ∧
          ((∀ x ∈ starts, x.2 ≠ .returned ()) → fromBusIn turns = []) := by
  intro s starts
  obtain ⟨hconnected, hrunning, hsubscribed⟩ := h.connected.operateAll fuel ops hends
  have hstarted : s.subscribed = true ↔ ∃ x ∈ starts, x.2 = .returned () := by
    rw [hsubscribed, h.subscribed]
    simp [starts, and_assoc]
  refine ⟨?_, fun count c hending => ?_⟩
  · rw [hrunning, h.running]
    simp [starts, List.filter_eq_nil_iff]
  · obtain ⟨⟨turns, hanswers⟩, -⟩ := hconnected.rested count c hending
    obtain ⟨added, hflows, hfrom⟩ := hanswers.flows
    have hsubscriptions := hconnected.subscriptions
    refine ⟨turns, added, hflows, fun hstart => ?_, fun hnone => ?_⟩
    · have hon := hstarted.mpr hstart
      rw [hon, if_pos rfl] at hsubscriptions
      rw [hsubscriptions, World.copies_service] at hfrom
      refine ⟨hfrom, fun hwhole hgeneration => ?_⟩
      rw [ruleNames, if_pos (hconnected.subscribed hon)]
      exact hanswers.hears hsubscriptions hflows.trail hgeneration hwhole
    · have hoff : ¬ s.subscribed = true := fun hon => by
        obtain ⟨x, hx, hreturned⟩ := hstarted.mp hon
        exact hnone x hx hreturned
      rw [if_neg hoff] at hsubscriptions
      rw [hfrom, hsubscriptions]
      simp [World.copies]

end

def lit : Rule := { name := .text "lit", triggers := [.device { target := .text "lamp", kind := .receivesUpdate }] }

def unlit : Service :=
  { world := { platform := {
      now := ⟨0, none⟩
      catalog := { items := [{ name := "lamp", accepts := [.onOff] }] } } } }

def switchOn : World.Call := .update ⟨.item, "lamp"⟩ (.onOff .on) "user"

theorem unattached_unlit : unlit.Unattached := ⟨⟨rfl, rfl, rfl⟩, rfl, rfl, rfl, rfl⟩

/-- Two rules of one name are kept, and cannot be loaded when the service is attached. Another rule set can, and when
the platform is given once more, the service starts. -/
def twiceLit : List Operation :=
  [.loadRuleSet { rules := [lit, lit] }, .attach, .loadRuleSet { rules := [lit] }, .setPlatform]

theorem hears_its_bus_twice :
    let s := (unlit.operateAll 5 twiceLit).1
    (∀ x ∈ (unlit.operateAll 5 twiceLit).2, x.2.settles = true) ∧ s.running = true ∧
      (s.perform 5 switchOn).2.settles = true ∧ ∃ added arrivals,
        (s.perform 5 switchOn).1.world.trail = s.world.trail ++ added ∧ Hears s.ruleNames added arrivals := by
  intro s
  have hends : ∀ x ∈ (unlit.operateAll 5 twiceLit).2, x.2.settles = true := by decide +kernel
  have hending : (s.perform 5 switchOn).2.settles = true := by decide +kernel
  obtain ⟨-, hhears⟩ := hears_its_bus 5 unattached_unlit twiceLit hends
  obtain ⟨turns, added, hflows, hheard, -⟩ := hhears 5 switchOn hending
  have hstarted : ∃ x ∈ (unlit.operateAll 5 twiceLit).2.filter (·.1), x.2 = .returned () := by
    have hany : ((unlit.operateAll 5 twiceLit).2.filter (·.1)).any (·.2.fault?.isNone) = true := by decide +kernel
    obtain ⟨x, hx, hnone⟩ := List.any_eq_true.mp hany
    obtain ⟨⟨⟩, hreturned⟩ := Ending.exists_returned (hends x (List.mem_of_mem_filter hx)) hnone
    exact ⟨x, hx, hreturned⟩
  have hwhole : ∀ x ∈ endedIn (s.perform 5 switchOn).1.world.trail, x.2.2 = none := by decide +kernel
  rw [hflows.trail, endedIn_append] at hwhole
  obtain ⟨arrivals, h⟩ := (hheard hstarted).2 (fun x hx => hwhole x (List.mem_append_right _ hx)) (by decide +kernel)
  exact ⟨hends, by decide +kernel, hending, added, arrivals, hflows.trail, h⟩

/-- Without the last of these operations the service has an engine with one rule, but what is published is evaluated
by none. -/
theorem deaf_after_failed_start :
    let s := (unlit.operateAll 5 twiceLit.dropLast).1
    let out := s.perform 5 switchOn
    unlit.Unattached ∧ (∀ x ∈ (unlit.operateAll 5 twiceLit.dropLast).2, x.2.settles = true) ∧ s.hasBus = true ∧
      s.running = true ∧ s.ruleNames.length = 1 ∧ out.2.settles = true ∧
      (devicesIn out.1.world.trail).length = 1 ∧ (endedIn out.1.world.trail).length = 0 :=
  ⟨unattached_unlit, by decide +kernel, by decide +kernel, by decide +kernel, by decide +kernel, by decide +kernel,
    by decide +kernel, by decide +kernel⟩

end Service
end Domotics
