import Domotics.Proofs.Engine.Judgement
import Domotics.Proofs.Expression.Defined
import Domotics.Proofs.Transition.Update

/-!
Expressions about events. An expression that is put together from predicates that look at the event, by disjunctions
and by conjunctions that are not empty, holds only if one of its predicates does. So it holds only of events of the
devices for which its targets stand, and a rule with such triggers lets the events of all other devices go by.
-/

namespace Domotics

def PredicateKind.ofTransition : PredicateKind → Bool
  | goes | goesFrom => true
  | is | receivesCommand | receivesUpdate => false

namespace Predicate

variable {p : Predicate} {s : Situation} {d : Reference}

theorem standsFor_of_locate (h : p.locate s = .ok d) : p.StandsFor s.aliases s.catalog d := by
  rw [locate] at h
  obtain ⟨found, hfound, h⟩ := Result.bind_eq_ok.mp h
  cases haccepted : s.catalog.accepted? found.ref with
  | none =>
    rw [haccepted] at h
    cases h
  | some accepted =>
    rw [haccepted] at h
    cases htype : p.type with
    | none =>
      simp only [htype] at h
      cases h
      exact ⟨⟨found, hfound, rfl⟩, accepted, haccepted, by simp [htype]⟩
    | some t =>
      simp only [htype] at h
      split_ifs at h with ht
      cases h
      exact ⟨⟨found, hfound, rfl⟩, accepted, haccepted, by simpa [htype] using ht⟩

/-- A predicate that holds has found its device. What is absorbed counts as not holding. -/
theorem evaluate_eq_true (h : (p.evaluate s).result = .ok true) :
    ∃ d, p.StandsFor s.aliases s.catalog d ∧ p.holds s d = true := by
  rw [evaluate] at h
  cases hlocate : p.locate s with
  | ok d =>
    simp only [hlocate] at h
    exact ⟨d, standsFor_of_locate hlocate, Except.ok.inj h⟩
  | error fault =>
    simp only [hlocate] at h
    split_ifs at h
    cases h

/-- An event that a predicate may look for: one of its device, and one that sets the state if the predicate looks for
a transition. -/
structure Concerned (p : Predicate) (around : Surroundings) (e : Event) : Prop where
  device : ∃ d, p.StandsFor around.aliases around.catalog d ∧ e.ref = some d
  ofDevice : e.ofDevice = true
  changesState : p.kind.ofTransition = true → e.changesState = true

theorem concerned_of_updates (hstands : p.StandsFor s.aliases s.catalog d) (h : s.event.updates d = true) :
    p.Concerned s.toSurroundings s.event := by
  obtain ⟨href, hchanges⟩ : s.event.ref = some d ∧ s.event.changesState = true := by simpa [Event.updates] using h
  exact ⟨⟨d, hstands, href⟩, Event.ofDevice_of_updates h, fun _ => hchanges⟩

theorem concerned_of_receives {kind : EventKind} (hstands : p.StandsFor s.aliases s.catalog d)
    (hp : p.kind.ofTransition = false) (h : p.receives s d kind = true) (hkind : kind ≠ .periodic) :
    p.Concerned s.toSurroundings s.event := by
  simp only [receives, Bool.and_eq_true, decide_eq_true_eq] at h
  obtain ⟨⟨hevent, href⟩, -⟩ := h
  exact ⟨⟨d, hstands, href⟩, by simpa [Event.ofDevice, hevent] using hkind, by simp [hp]⟩

theorem concerned_of_evaluate (hkind : p.kind ≠ .is) (h : (p.evaluate s).result = .ok true) :
    p.Concerned s.toSurroundings s.event := by
  obtain ⟨d, hstands, hholds⟩ := evaluate_eq_true h
  have htransition (hp : p.kind = .goes ∨ p.kind = .goesFrom) : p.Concerned s.toSurroundings s.event := by
    rw [holds_eq hp, Bool.and_eq_true] at hholds
    exact concerned_of_updates hstands hholds.1
  cases hp : p.kind with
  | is => exact absurd hp hkind
  | goes => exact htransition (.inl hp)
  | goesFrom => exact htransition (.inr hp)
  | receivesCommand =>
    rw [holds, hp] at hholds
    exact concerned_of_receives hstands (by rw [hp]; rfl) hholds (by decide)
  | receivesUpdate =>
    rw [holds, hp] at hholds
    exact concerned_of_receives hstands (by rw [hp]; rfl) hholds (by decide)

end Predicate

namespace Expression

/-- An expression over predicates that look at the event, in which no conjunction is empty. -/
inductive EventDriven : Expression → Prop where
  | device {p : Predicate} (hkind : p.kind ≠ .is) : EventDriven (.device p)
  | all {children : List Expression} (hne : children ≠ []) (hchildren : ∀ e ∈ children, EventDriven e) :
      EventDriven (.all children)
  | any {children : List Expression} (hchildren : ∀ e ∈ children, EventDriven e) : EventDriven (.any children)

variable {s : Situation} {e : Expression} {es : List Expression} {p : Predicate}

theorem mem_predicatesOf : p ∈ predicatesOf es ↔ ∃ e ∈ es, p ∈ e.predicates := by
  induction es with
  | nil => simp [predicatesOf]
  | cons e rest ih => simp [predicatesOf, ih]

theorem evaluateAll_eq_true :
    (evaluateAll s es).result = .ok true ↔ ∀ e ∈ es, (evaluate s e).result = .ok true := by
  induction es with
  | nil => simp [evaluateAll]
  | cons e rest ih =>
    rw [evaluateAll, Verdict.orElse, List.forall_mem_cons, ← ih]
    cases hfirst : (evaluate s e).result with
    | error fault => simp [hfirst]
    | ok b => cases b <;> simp [hfirst]

theorem exists_of_evaluateAny (h : (evaluateAny s es).result = .ok true) :
    ∃ e ∈ es, (evaluate s e).result = .ok true := by
  induction es with
  | nil => cases h
  | cons e rest ih =>
    rw [evaluateAny, Verdict.orElse] at h
    cases hfirst : (evaluate s e).result with
    | error fault => simp [hfirst] at h
    | ok b =>
      cases b with
      | true => exact ⟨e, List.mem_cons_self, hfirst⟩
      | false =>
        obtain ⟨later, hlater, hholds⟩ := ih (by simpa [hfirst] using h)
        exact ⟨later, List.mem_cons_of_mem _ hlater, hholds⟩

theorem EventDriven.exists_concerned (he : e.EventDriven) (h : (evaluate s e).result = .ok true) :
    ∃ p ∈ e.predicates, p.Concerned s.toSurroundings s.event := by
  induction he with
  | @device p hkind =>
    rw [evaluate] at h
    exact ⟨p, List.mem_singleton_self p, Predicate.concerned_of_evaluate hkind h⟩
  | @all children hne hchildren ih =>
    obtain ⟨child, hchild⟩ := List.exists_mem_of_ne_nil children hne
    rw [evaluate, evaluateAll_eq_true] at h
    obtain ⟨p, hp, hconcerned⟩ := ih child hchild (h child hchild)
    exact ⟨p, mem_predicatesOf.mpr ⟨child, hchild, hp⟩, hconcerned⟩
  | @any children hchildren ih =>
    rw [evaluate] at h
    obtain ⟨child, hchild, hholds⟩ := exists_of_evaluateAny h
    obtain ⟨p, hp, hconcerned⟩ := ih child hchild hholds
    exact ⟨p, mem_predicatesOf.mpr ⟨child, hchild, hp⟩, hconcerned⟩

end Expression

namespace Machine

open Expression

variable {m : Machine} {aliases : AliasRegistry} {w : World} {e : Event} {now : Moment}

/-- A rule with such triggers that an event of a device clears for a fire has a predicate that the event concerns. -/
theorem exists_concerned_of_verdict (htriggers : ∀ t ∈ m.rule.triggers, t.EventDriven) (hdevice : e.ofDevice = true)
    {j : Judgement} (hverdict : m.verdict aliases w e now = .ok j) (hfires : j.state = .firing) :
    ∃ p ∈ predicatesOf m.rule.triggers, p.Concerned (w.surroundings aliases) e := by
  have hcleared := (formed_of_judge hverdict).2 hfires
  have hkind : e.kind ≠ .periodic := by simpa [Event.ofDevice] using hdevice
  obtain ⟨t, ht, hholds⟩ := exists_of_evaluateAny (hcleared.triggered.resolve_left hkind)
  obtain ⟨p, hp, hconcerned⟩ := (htriggers t ht).exists_concerned hholds
  exact ⟨p, mem_predicatesOf.mpr ⟨t, ht, hp⟩, hconcerned⟩

/-- Expressions about events look at their own devices only. If one holds, the event is one of a device for which one
of its targets stands at present, and it sets the state of that device if all predicates look for transitions; this
goes for strict and for tolerant evaluation. So a rule with such triggers does nothing on the event of any other
device: it does not fire, and the world is the same but for the trail. -/
theorem responds_to_own_devices :
    (∀ (t : Expression) (s : Situation), t.EventDriven → (evaluate s t).result = .ok true →
      s.event.ofDevice = true ∧
      (∃ p ∈ t.predicates, ∃ d, p.StandsFor s.aliases s.catalog d ∧ s.event.ref = some d) ∧
      ((∀ p ∈ t.predicates, p.kind.ofTransition = true) → s.event.changesState = true)) ∧
    ∀ (m : Machine) (aliases : AliasRegistry) (w : World) (e : Event) (now : Moment),
      (∀ t ∈ m.rule.triggers, t.EventDriven) → e.ofDevice = true →
      (∀ p ∈ predicatesOf m.rule.triggers, ∀ d, p.StandsFor aliases w.platform.catalog d → e.ref ≠ some d) →
      (∃ ending, (m.handle aliases w e now).world = (w.mark (.began m.rule.name e)).mark ending) ∧
      ∀ o, (m.handle aliases w e now).result = .ok o → o.fired = false := by
  refine ⟨fun t s ht h => ?_, fun m aliases w e now htriggers hdevice hother => ?_⟩
  · obtain ⟨p, hp, hconcerned⟩ := ht.exists_concerned h
    exact ⟨hconcerned.ofDevice, ⟨p, hp, hconcerned.device⟩, fun hall => hconcerned.changesState (hall p hp)⟩
  · have hrests (j : Judgement) (hverdict : m.verdict aliases w e now = .ok j) : j.state ≠ .firing := by
      intro hfires
      obtain ⟨p, hp, hconcerned⟩ := exists_concerned_of_verdict htriggers hdevice hverdict hfires
      obtain ⟨d, hstands, href⟩ := hconcerned.device
      exact hother p hp d hstands href
    have hhandled := m.handled_handle aliases w e now
    generalize m.handle aliases w e now = pass at hhandled ⊢
    cases hhandled with
    | @broke fault hverdict =>
      refine ⟨⟨.broke m.rule.name e fault, rfl⟩, fun o ho => ?_⟩
      cases ho
    | @rested j hverdict hstill =>
      refine ⟨⟨.passed ⟨m.rule.name, now, e, j⟩, rfl⟩, fun o ho => ?_⟩
      cases ho
      simpa [Outcome.fired] using hstill
    | fired record hverdict hfires => exact absurd hfires (hrests _ hverdict)
    | unplanned hverdict hfires => exact absurd hfires (hrests _ hverdict)

def calledOrOn : Expression :=
  .any [.device { target := .text "door", kind := .receivesCommand }, .all [.device (lampOn .goes)]]

/-- A rule that waits for this and does not mind if there is no door. -/
def beacon : Machine where
  rule := { name := .text "beacon", triggers := [calledOrOn], continueOnErrors := .bool true
            actions := [.notify (.text "on")] }
  retrigger := { cooldown := .zero, specs := [] }

/-- In the world with the lamp alone, the beacon heeds the lamp and no window. -/
theorem responds_to_own_devices_beacon :
    let now : Moment := ⟨0, none⟩
    let on : Event := { ref := some ⟨.item, "lamp"⟩, kind := .update, new := .onOff .on, time := now }
    let elsewhere : Event := { on with ref := some ⟨.item, "window"⟩ }
    let s := beacon.outlook {} lampWorld on now
    calledOrOn.EventDriven ∧ (evaluate s calledOrOn).result = .ok true ∧ on.ofDevice = true ∧
    (∃ p ∈ calledOrOn.predicates, ∃ d, p.StandsFor {} lampWorld.platform.catalog d ∧ on.ref = some d) ∧
    elsewhere.ofDevice = true ∧
    ∃ ending, (beacon.handle {} lampWorld elsewhere now).world =
      (lampWorld.mark (.began (.text "beacon") elsewhere)).mark ending := by
  intro now on elsewhere s
  have hdriven : calledOrOn.EventDriven := by
    refine .any (List.forall_mem_cons.mpr ⟨.device (by decide), List.forall_mem_singleton.mpr ?_⟩)
    exact .all (by simp) (List.forall_mem_singleton.mpr (.device (by decide)))
  have hother : ∀ p ∈ predicatesOf beacon.rule.triggers, ∀ d, p.StandsFor {} lampWorld.platform.catalog d →
      elsewhere.ref ≠ some d := by
    intro p hp d hstands
    obtain ⟨found, hfound, rfl⟩ := hstands.resolves
    rcases List.mem_pair.mp hp with rfl | rfl
    · cases hfound
    · cases hfound
      decide
  obtain ⟨hevent, hrule⟩ := responds_to_own_devices
  have hholds : (evaluate s calledOrOn).result = .ok true := rfl
  obtain ⟨hdevice, hconcerned, -⟩ := hevent calledOrOn s hdriven hholds
  exact ⟨hdriven, hholds, hdevice, hconcerned, rfl,
    (hrule beacon {} lampWorld elsewhere now (List.forall_mem_singleton.mpr hdriven) rfl hother).1⟩

end Machine
end Domotics
