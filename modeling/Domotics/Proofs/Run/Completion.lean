import Domotics.Proofs.Engine.Load
import Domotics.Proofs.Run.Rest
import Domotics.Proofs.Run.Steps

/-!
Runs of a service on its bus go to completion. Whether an event waits on the bus or in the engine, the
events that wait are in the order of publication, and a round of the rules makes exactly the
evaluations that are due for the first of them.
-/

namespace Domotics

def Happening.isBreak : Happening → Bool
  | broke .. => true
  | _ => false

/-- A pass makes the one evaluation that is due for its event, if the event happens to a device. -/
theorem Pass.Whole.evaluatedIn {p : Pass} (h : p.Whole) :
    Happening.evaluatedIn p.trail = dueOf [p.rule] ([p.event].filter (·.ofDevice)) := by
  rw [Pass.trail, Happening.evaluatedIn_pass _ h.inner]
  cases hdevice : p.event.ofDevice <;>
    simp [Happening.evaluated?, h.event, h.rule, hdevice, dueOf]

namespace World

open Happening

def breaks (w : World) : Nat := w.trail.countP (·.isBreak)

theorem breaks_le_of_prefix {w w' : World} (h : w.trail <+: w'.trail) : w.breaks ≤ w'.breaks :=
  h.sublist.countP_le

theorem breaks_between {w w' w'' : World} (h₁ : w.trail <+: w'.trail) (h₂ : w'.trail <+: w''.trail)
    (h : w''.breaks = w.breaks) : w'.breaks = w.breaks ∧ w''.breaks = w'.breaks := by
  have hle := breaks_le_of_prefix h₁
  have hle' := breaks_le_of_prefix h₂
  omega

structure Carries (rules : List Rule) (w : World) : Prop where
  inOrder : w.engine.book.machines.map (·.rule) = rules
  keepsToBus : ∀ r ∈ rules, Action.allKeepToBus r.actions = true

/-- `w` becomes `w'` by steps that make evaluations which are due. -/
structure Goes (rules : List Rule) (due : List Evaluation) (w : World) (due' : List Evaluation)
    (w' : World) : Prop where
  generation : w'.engine.generation = w.engine.generation
  carries : w'.Carries rules
  steps : ∃ steps, w'.trail = w.trail ++ Step.trailOf steps ∧ Follows rules due steps due'

namespace Goes

variable {rules : List Rule} {due mid due' : List Evaluation} {w w' w'' : World}

theorem trans (h₁ : Goes rules due w mid w') (h₂ : Goes rules mid w' due' w'') :
    Goes rules due w due' w'' := by
  obtain ⟨first, hfirst, hfollows⟩ := h₁.steps
  obtain ⟨later, hlater, hfollows'⟩ := h₂.steps
  refine ⟨h₂.generation.trans h₁.generation, h₂.carries, first ++ later, ?_,
    hfollows.append hfollows'⟩
  rw [hlater, hfirst, Step.trailOf, Step.trailOf, Step.trailOf, List.flatMap_append,
    List.append_assoc]

theorem quiet (hw : w.Carries rules) (hgeneration : w'.engine.generation = w.engine.generation)
    (hbook : w'.engine.book = w.engine.book) (htrail : w'.trail = w.trail)
    (due : List Evaluation) : Goes rules due w due w' where
  generation := hgeneration
  carries := ⟨hbook ▸ hw.inOrder, hw.keepsToBus⟩
  steps := ⟨[], by rw [htrail, Step.trailOf, List.flatMap_nil, List.append_nil], .nil due⟩

end Goes

variable {rules : List Rule} {w w' : World} {m m' : Machine} {rest : List Machine}
  {generation index : Nat}

theorem goes_pass {p : Pass} (hw : w.Wired) (hcarries : w.Carries rules)
    (hahead : w.Ahead generation index (m :: rest)) (hgeneration : w.engine.generation = generation)
    (hrule : p.rule = m.rule) (hwhole : p.Whole)
    (hacts : w.Acts (Action.allKeepToBus m.rule.actions = true) w' p.trail)
    (hm' : m'.rule = m.rule) (others : List Evaluation) :
    Goes rules (dueOf [m.rule] ([p.event].filter (·.ofDevice)) ++ (others ++ dueOf rules w.waiting)) w
      (others ++ dueOf rules (w'.storeMachine generation index m').waiting)
      (w'.storeMachine generation index m') := by
  have hm : m ∈ w.engine.book.machines := by
    apply List.mem_of_mem_drop
    rw [hahead hgeneration]
    exact List.mem_cons_self ..
  have hmem : m.rule ∈ rules := by
    rw [← hcarries.inOrder]
    exact List.mem_map_of_mem hm
  obtain ⟨hsame, hwaiting⟩ := hacts.relays (hcarries.keepsToBus m.rule hmem) hw
  refine ⟨by rw [storeMachine_generation, hsame], ⟨?_, hcarries.keepsToBus⟩, [.pass p], ?_, ?_⟩
  · rw [hahead.map_store (·.rule) hgeneration hacts hsame hm', hcarries.inOrder]
  · rw [storeMachine_trail, hacts.trail, Step.trailOf, List.flatMap_singleton]
    rfl
  · have hevaluated : evaluatedIn (Step.pass p).trail =
        dueOf [m.rule] ([p.event].filter (·.ofDevice)) := by
      rw [← hrule]
      exact hwhole.evaluatedIn
    refine .single ⟨?_, ?_, ?_⟩
    · intro q hq
      cases hq
      exact ⟨hrule ▸ hmem, hwhole⟩
    · rw [hevaluated]
      exact List.prefix_append ..
    · rw [hevaluated, storeMachine_waiting, hwaiting, dueOf_append, List.append_assoc,
        List.append_assoc]
      rfl

theorem dueOf_cons_single (r : Rule) (others : List Rule) (e : Event) :
    dueOf (r :: others) ([e].filter (·.ofDevice)) =
      dueOf [r] ([e].filter (·.ofDevice)) ++ dueOf others ([e].filter (·.ofDevice)) := by
  cases hdevice : e.ofDevice <;> simp [dueOf, hdevice]

theorem breaks_lt_of_broke {name : Document} {e : Event} {fault : Fault} {inner : List Happening}
    (htrail : w'.trail = w.trail ++ (inner ++ [.broke name e fault])) : w.breaks < w'.breaks := by
  have hlast : [Happening.broke name e fault].countP (·.isBreak) = 1 := rfl
  rw [breaks, breaks, htrail, List.countP_append, List.countP_append, hlast]
  omega

theorem goes_passAll {machines : List Machine} {round : Round} {e : Event} {report : Report}
    (hw : w.Wired) (hcarries : w.Carries rules) (hahead : w.Ahead round.generation index machines)
    (hgeneration : w.engine.generation = round.generation)
    (hbreaks : (passAll round e index machines w report).1.breaks = w.breaks) :
    (∃ report', (passAll round e index machines w report).2 = .ok report') ∧
      Goes rules (dueOf (machines.map (·.rule)) ([e].filter (·.ofDevice)) ++ dueOf rules w.waiting) w
        (dueOf rules (passAll round e index machines w report).1.waiting)
        (passAll round e index machines w report).1 := by
  induction machines generalizing index w report with
  | nil =>
    have hnone : dueOf [] ([e].filter (·.ofDevice)) = [] := by simp [dueOf]
    rw [List.map_nil, hnone, List.nil_append]
    exact ⟨⟨report, rfl⟩, .quiet hcarries rfl rfl rfl _⟩
  | cons m rest ih =>
    obtain ⟨inner, hacts, hinner, hwhole⟩ := m.acts_handle round.aliases w e round.now
    have hpassed := m.passed_handle round.aliases w e round.now
    let stored := (m.handle round.aliases w e round.now).world.storeMachine round.generation index
      (m.handle round.aliases w e round.now).machine
    have hstays : w.Stays stored := (Stays.ofActs hacts).trans (.storeMachine ..)
    have hnext : stored.Ahead round.generation (index + 1) rest :=
      hahead.store (Nat.le_of_eq hgeneration.symm) hacts _
    rw [passAll] at hbreaks ⊢
    cases hresult : (m.handle round.aliases w e round.now).result with
    | error fault =>
      rw [hresult] at hacts
      have hlt : w.breaks < stored.breaks := breaks_lt_of_broke hacts.trail
      simp only [hresult] at hbreaks
      exact absurd hbreaks (Nat.ne_of_gt hlt)
    | ok o =>
      rw [hresult] at hacts
      simp only [hresult] at hbreaks ⊢
      have hfirst := goes_pass (p := ⟨m.rule, e, inner, o⟩) hw hcarries hahead hgeneration rfl
        (hwhole o hresult).2 hacts hpassed.rule (dueOf (rest.map (·.rule)) ([e].filter (·.ofDevice)))
      obtain ⟨_, hrest⟩ := breaks_between hstays.trail (stays_passAll stored ..).trail hbreaks
      obtain ⟨hok, hlater⟩ := ih (hstays.wired hw) hfirst.carries hnext
        (hfirst.generation.trans hgeneration) hrest
      refine ⟨hok, ?_⟩
      rw [List.map_cons, dueOf_cons_single, List.append_assoc]
      exact hfirst.trans hlater

theorem goes_processOne {e : Event} (hw : w.Wired) (hcarries : w.Carries rules)
    (hbreaks : (w.processOne e).1.breaks = w.breaks) :
    (∃ report, (w.processOne e).2 = .ok report) ∧
      Goes rules (dueOf rules ([e].filter (·.ofDevice)) ++ dueOf rules w.waiting) w
        (dueOf rules (w.processOne e).1.waiting) (w.processOne e).1 := by
  have hall : w.Ahead w.engine.generation 0 w.engine.book.machines := fun _ => List.drop_zero
  rw [processOne] at hbreaks ⊢
  have h := goes_passAll hw hcarries hall rfl hbreaks
  rw [hcarries.inOrder] at h
  exact h

/-- The engine goes through the events that wait; if it comes to an end, none is left to it. -/
theorem goes_drain (fuel : Nat) {report : Report} (hw : w.Wired) (hcarries : w.Carries rules)
    (hbreaks : (drain fuel w report).1.breaks = w.breaks) :
    Goes rules (dueOf rules w.waiting) w (dueOf rules (drain fuel w report).1.waiting)
        (drain fuel w report).1 ∧
      ((drain fuel w report).2 ≠ .unsettled → (drain fuel w report).1.engine.pending = [] ∧
        ∃ report', (drain fuel w report).2 = .returned report') := by
  induction fuel generalizing w report with
  | zero => exact ⟨.quiet hcarries rfl rfl rfl _, fun h => absurd rfl h⟩
  | succ fuel ih =>
    cases hpending : w.engine.pending with
    | nil =>
      rw [drain_of_empty fuel report hpending]
      exact ⟨.quiet hcarries rfl rfl rfl _, fun _ => ⟨hpending, report, rfl⟩⟩
    | cons e rest =>
      let start : World := { w with engine := { w.engine with pending := rest } }
      have hstart : w.Stays start := .quiet rfl rfl rfl rfl
      have hwaiting : w.waiting = [e].filter (·.ofDevice) ++ start.waiting := by
        rw [waiting, hpending, List.cons_append, ← List.singleton_append, List.filter_append]
        rfl
      have hone : start.Stays (start.processOne e).1 := stays_passAll ..
      have hstarted : Goes rules (dueOf rules w.waiting) w
          (dueOf rules ([e].filter (·.ofDevice)) ++ dueOf rules start.waiting) start := by
        rw [hwaiting, dueOf_append]
        refine .quiet hcarries ?_ ?_ ?_ _ <;> rfl
      rw [drain_of_cons fuel report hpending] at hbreaks ⊢
      rw [show processOne { w with engine := { w.engine with pending := rest } } e =
        start.processOne e from rfl] at hbreaks ⊢
      cases hresult : (start.processOne e).2 with
      | error fault =>
        simp only [hresult] at hbreaks
        obtain ⟨⟨_, hok⟩, _⟩ := goes_processOne (hstart.wired hw) hstarted.carries hbreaks
        rw [hresult] at hok
        cases hok
      | ok one =>
        simp only [hresult] at hbreaks ⊢
        obtain ⟨hfirst, hrest⟩ := breaks_between hone.trail (stays_drain ..).trail hbreaks
        obtain ⟨_, hgoes⟩ := goes_processOne (hstart.wired hw) hstarted.carries hfirst
        obtain ⟨hlater, hends⟩ := ih (hone.wired (hstart.wired hw)) hgoes.carries hrest
        exact ⟨(hstarted.trans hgoes).trans hlater, hends⟩

theorem goes_processEvent (fuel : Nat) (e : Event) (hw : w.Wired) (hcarries : w.Carries rules)
    (hdraining : w.engine.draining = false)
    (hbreaks : (w.processEvent fuel e).1.breaks = w.breaks) :
    Goes rules (dueOf rules ({ w with engine := w.engine.enqueue e } : World).waiting) w
        (dueOf rules (w.processEvent fuel e).1.waiting) (w.processEvent fuel e).1 ∧
      ((w.processEvent fuel e).2 ≠ .unsettled → (w.processEvent fuel e).1.engine.pending = [] ∧
        ∃ report, (w.processEvent fuel e).2 = .returned report) := by
  let start : World := World.setDraining { w with engine := w.engine.enqueue e } true
  have hstart : start.Wired := ⟨hw.attached, hw.subscriptions, hw.queue⟩
  rw [processEvent_of_idle fuel e hdraining] at hbreaks ⊢
  obtain ⟨hgoes, hends⟩ := goes_drain fuel hstart ⟨hcarries.inOrder, hcarries.keepsToBus⟩ hbreaks
  exact ⟨⟨hgoes.generation, ⟨hgoes.carries.inOrder, hcarries.keepsToBus⟩, hgoes.steps⟩, hends⟩

theorem goes_handleFromBus (fuel : Nat) (e : Event) (hw : w.Wired) (hcarries : w.Carries rules)
    (hdraining : w.engine.draining = false)
    (hending : (w.handleFromBus fuel e).2 ≠ .escaped)
    (hbreaks : (w.handleFromBus fuel e).1.breaks = w.breaks) :
    Goes rules (dueOf rules ({ w with engine := w.engine.enqueue e } : World).waiting) w
        (dueOf rules (w.handleFromBus fuel e).1.waiting) (w.handleFromBus fuel e).1 ∧
      (w.handleFromBus fuel e).1.engine.pending = [] := by
  rw [handleFromBus] at hending hbreaks ⊢
  rcases hout : w.processEvent fuel e with ⟨next, report | fault | _⟩
  · rw [hout] at hbreaks
    have h := goes_processEvent fuel e hw hcarries hdraining (by rw [hout]; exact hbreaks)
    rw [hout] at h
    obtain ⟨hgoes, hends⟩ := h
    exact ⟨⟨hgoes.generation, ⟨hgoes.carries.inOrder, hcarries.keepsToBus⟩, hgoes.steps⟩,
      (hends (by simp)).1⟩
  · rw [hout] at hbreaks
    have h := goes_processEvent fuel e hw hcarries hdraining (by rw [hout]; exact hbreaks)
    rw [hout] at h
    obtain ⟨_, report, hreport⟩ := h.2 (by simp)
    cases hreport
  · rw [hout] at hending
    exact absurd rfl hending

theorem goes_turn (fuel : Nat) {e : Event} {later : List Event} (hw : w.Wired)
    (hcarries : w.Carries rules) (hdispatching : w.bus.dispatching = true)
    (hdraining : w.engine.draining = false) (hpending : w.engine.pending = [])
    (hqueue : w.bus.queue = e :: later)
    (hcut : ((busSystem fuel).deliver e w.bus.subscriptions (w.taken later)).2 = false)
    (hbreaks : ((busSystem fuel).deliver e w.bus.subscriptions (w.taken later)).1.breaks =
      w.breaks) :
    let next := ((busSystem fuel).deliver e w.bus.subscriptions (w.taken later)).1
    Goes rules (dueOf rules w.waiting) w (dueOf rules next.waiting) next ∧
      next.engine.pending = [] := by
  have htaken := hw.taken hdispatching later
  rw [hw.subscriptions] at hcut hbreaks ⊢
  by_cases hdevice : e.ofDevice = true
  · have haccepts : Service.filter.accepts e = true := by rw [Service.accepts_filter, hdevice]
    have hwaiting : w.waiting = ({ w.taken later with
        engine := (w.taken later).engine.enqueue e } : World).waiting := by
      simp [waiting, taken, Engine.enqueue, hpending, hqueue]
    have hescaped : (handleFromBus fuel e (w.taken later)).2 ≠ .escaped := by
      intro h
      rw [BusSystem.deliver_of_escaped _ haccepts h] at hcut
      cases hcut
    rw [BusSystem.deliver_of_not_escaped _ haccepts hescaped] at hbreaks ⊢
    obtain ⟨hgoes, hnone⟩ := goes_handleFromBus fuel e htaken
      ⟨hcarries.inOrder, hcarries.keepsToBus⟩ hdraining hescaped hbreaks
    rw [← hwaiting] at hgoes
    exact ⟨⟨hgoes.generation, hgoes.carries, hgoes.steps⟩, hnone⟩
  · have haccepts : ¬ Service.filter.accepts e = true := by rwa [Service.accepts_filter]
    have hwaiting : w.waiting = (w.taken later).waiting := by
      simp [waiting, taken, hpending, hqueue, hdevice]
    rw [BusSystem.deliver_of_not_accepts _ haccepts, hwaiting]
    refine ⟨.quiet hcarries ?_ ?_ ?_ _, hpending⟩ <;> rfl

theorem goes_drainBus (fuel count : Nat) (hw : w.Wired) (hcarries : w.Carries rules)
    (hdispatching : w.bus.dispatching = true) (hdraining : w.engine.draining = false)
    (hpending : w.engine.pending = [])
    (hending : ((busSystem fuel).drain count w).2 = .settled)
    (hbreaks : ((busSystem fuel).drain count w).1.breaks = w.breaks) :
    Goes rules (dueOf rules w.waiting) w [] ((busSystem fuel).drain count w).1 ∧
      ((busSystem fuel).drain count w).1.engine.pending = [] := by
  induction count generalizing w with
  | zero => simp [BusSystem.drain] at hending
  | succ count ih =>
    cases hqueue : w.bus.queue with
    | nil =>
      have hwaiting : w.waiting = [] := by simp [waiting, hpending, hqueue]
      rw [BusSystem.drain_of_empty (busSystem fuel) count hqueue, hwaiting]
      refine ⟨.quiet hcarries ?_ ?_ ?_ _, hpending⟩ <;> rfl
    | cons e later =>
      have htaken := hw.taken hdispatching later
      have hstays := stays_deliver fuel (w.taken later) e w.bus.subscriptions
      obtain ⟨hcut, hnext⟩ := drainBus_of_cons fuel count hqueue hending
      rw [hnext] at hending hbreaks ⊢
      obtain ⟨_, htrail⟩ := atRest_drainBus fuel count (hstays.wired htaken)
        (hstays.dispatching.trans hdispatching) (hstays.draining.trans hdraining) hending
      obtain ⟨hfirst, hrest⟩ := breaks_between hstays.trail htrail hbreaks
      obtain ⟨hgoes, hnone⟩ := goes_turn fuel hw hcarries hdispatching hdraining hpending hqueue
        hcut hfirst
      obtain ⟨hlater, hends⟩ := ih (hstays.wired htaken) hgoes.carries
        (hstays.dispatching.trans hdispatching) (hstays.draining.trans hdraining) hnone hending hrest
      exact ⟨hgoes.trans hlater, hends⟩

structure Idle (w : World) : Prop where
  atRest : w.AtRest
  pending : w.engine.pending = []

theorem Idle.waiting_eq_nil (h : w.Idle) : w.waiting = [] := by
  rw [waiting, h.pending, h.atRest.wired.queue h.atRest.dispatching]
  rfl

/-- What a call does to an idle world if no pass breaks: nothing is left to do after it. -/
def Completes (rules : List Rule) (w w' : World) : Prop := w'.Idle ∧ Goes rules [] w [] w'

theorem Completes.trans {w'' : World} (h₁ : Completes rules w w') (h₂ : Completes rules w' w'') :
    Completes rules w w'' := ⟨h₂.1, h₁.2.trans h₂.2⟩

theorem Completes.quiet (hidle : w.Idle) (hcarries : w.Carries rules) (hbus : w'.bus = w.bus)
    (hengine : w'.engine = w.engine) (htrail : w'.trail = w.trail)
    (hattached : w'.platform.attached = w.platform.attached) : Completes rules w w' := by
  have hstays : w.Stays w' := .quiet hbus htrail hattached (by rw [hengine])
  exact ⟨⟨hidle.atRest.stays hstays, by rw [hengine, hidle.pending]⟩,
    .quiet hcarries (by rw [hengine]) (by rw [hengine]) htrail []⟩

theorem completes_publishOnBus (fuel : Nat) (e : Event) (hidle : w.Idle)
    (hcarries : w.Carries rules) (hending : (w.publishOnBus fuel e).2 ≠ .unsettled)
    (hbreaks : (w.publishOnBus fuel e).1.breaks = w.breaks) :
    Completes rules w (w.publishOnBus fuel e).1 := by
  have hrests := rests_publishOnBus fuel hidle.atRest e hending
  obtain ⟨hsettled, hworld⟩ := drainBus_of_publishOnBus fuel hidle.atRest.dispatching hending
  have hwired := hidle.atRest.wired.published e
  have htrail : (w.published e).trail = w.trail ++ [.published e] := mark_trail ..
  have hwaiting : (w.published e).waiting = [e].filter (·.ofDevice) := by
    have hqueue := hidle.atRest.wired.queue hidle.atRest.dispatching
    simp [published, waiting, Bus.enqueue, hqueue, hidle.pending]
  have hstep : Goes rules [] w (dueOf rules (w.published e).waiting) (w.published e) := by
    refine ⟨rfl, ⟨hcarries.inOrder, hcarries.keepsToBus⟩, [.published e], htrail, .single ⟨?_, ?_, ?_⟩⟩
    · intro p hp
      cases hp
    · exact List.nil_prefix
    · rw [hwaiting]
      rfl
  have hsame : (w.published e).breaks = w.breaks := by
    rw [breaks, breaks, htrail, List.countP_append]
    rfl
  rw [hworld] at hbreaks hrests ⊢
  obtain ⟨hgoes, hnone⟩ := goes_drainBus fuel fuel hwired hstep.carries rfl hidle.atRest.draining
    hidle.pending hsettled (hbreaks.trans hsame.symm)
  exact ⟨⟨hrests.1, hnone⟩, hstep.trans hgoes⟩

theorem completes_publish (fuel : Nat) (e : Event) (hidle : w.Idle) (hcarries : w.Carries rules)
    (hending : (w.publish fuel e).2 ≠ .unsettled)
    (hbreaks : (w.publish fuel e).1.breaks = w.breaks) :
    Completes rules w (w.publish fuel e).1 := by
  rw [publish, if_neg (by simp [hidle.atRest.wired.attached])] at hending hbreaks ⊢
  exact completes_publishOnBus fuel e hidle hcarries hending hbreaks

theorem completes_updateState (fuel : Nat) (r : Reference) (v : Value) (source : String)
    (hidle : w.Idle) (hcarries : w.Carries rules)
    (hending : (w.updateState fuel r v source).2 ≠ .unsettled)
    (hbreaks : (w.updateState fuel r v source).1.breaks = w.breaks) :
    Completes rules w (w.updateState fuel r v source).1 := by
  let start : World := { w with platform := (w.platform.update r v source).1 }
  have hstart : Completes rules w start := .quiet hidle hcarries rfl rfl rfl rfl
  exact hstart.trans (completes_publish fuel _ hstart.1 hstart.2.carries hending hbreaks)

theorem completes_sendCommand (fuel : Nat) (r : Reference) (v : Value) (source : String)
    (hidle : w.Idle) (hcarries : w.Carries rules)
    (hending : (w.sendCommand fuel r v source).2 ≠ .unsettled)
    (hbreaks : (w.sendCommand fuel r v source).1.breaks = w.breaks) :
    Completes rules w (w.sendCommand fuel r v source).1 := by
  let start : World := { w with platform := (w.platform.command r v source).1 }
  have hstart : Completes rules w start := .quiet hidle hcarries rfl rfl rfl rfl
  obtain ⟨hsent, heq⟩ := sendCommand_of_ends fuel r v source hending
  have hrests := rests_publish fuel hstart.1.atRest _ hsent
  rw [heq] at hending hbreaks ⊢
  split_ifs at hending hbreaks ⊢
  · have hrests' := rests_updateState fuel hrests.1 r v source hending
    obtain ⟨hfirst, hrest⟩ := breaks_between hrests.2 hrests'.2 hbreaks
    have hpublished := hstart.trans
      (completes_publish fuel _ hstart.1 hstart.2.carries hsent hfirst)
    exact hpublished.trans
      (completes_updateState fuel r v source hpublished.1 hpublished.2.carries hending hrest)
  · exact hstart.trans (completes_publish fuel _ hstart.1 hstart.2.carries hsent hbreaks)

theorem goes_tickTurn {now : Moment} {aliases : AliasRegistry} (hw : w.Wired)
    (hcarries : w.Carries rules) (hahead : w.Ahead generation index (m :: rest))
    (hgeneration : w.engine.generation = generation)
    (hbreaks : ((m.handleTick aliases w now).world.storeMachine generation index
      (m.handleTick aliases w now).machine).breaks = w.breaks) :
    (∃ o, (m.handleTick aliases w now).result = .ok o) ∧
      let stored := (m.handleTick aliases w now).world.storeMachine generation index
        (m.handleTick aliases w now).machine
      Goes rules (dueOf rules w.waiting) w (dueOf rules stored.waiting) stored := by
  obtain ⟨inner, hacts, hinner, hwhole⟩ := m.acts_handle aliases w (.tick now) now
  have hpassed := m.passed_handle aliases w (.tick now) now
  have hticked := m.ticked_handleTick aliases w now
  generalize m.handleTick aliases w now = tick at hticked hbreaks ⊢
  cases hticked with
  | notDue =>
    have hnothing : w.Acts True w [] := .refl w
    refine ⟨⟨none, rfl⟩, by simp, ⟨?_, hcarries.keepsToBus⟩, [], by simp [Step.trailOf], ?_⟩
    · rw [hahead.map_store (·.rule) hgeneration hnothing rfl rfl, hcarries.inOrder]
    · rw [storeMachine_waiting]
      exact .nil _
  | unknown fault =>
    have htrail : (w.mark (.broke m.rule.name (.tick now) fault)).trail =
        w.trail ++ ([] ++ [.broke m.rule.name (.tick now) fault]) := mark_trail ..
    exact absurd hbreaks (Nat.ne_of_gt (breaks_lt_of_broke htrail))
  | @passed m' result hresult hplanned =>
    cases result with
    | error fault =>
      rw [hresult] at hacts
      exact absurd hbreaks (Nat.ne_of_gt (breaks_lt_of_broke hacts.trail))
    | ok o =>
      rw [hresult] at hacts
      have h := goes_pass (p := ⟨m.rule, .tick now, inner, o⟩) hw hcarries hahead hgeneration rfl
        (hwhole o hresult).2 hacts (hplanned.rule.trans hpassed.rule) []
      exact ⟨⟨some o, rfl⟩, h⟩
  | unplanned fault hplanned =>
    have hbroke := hacts.trans (.mark _ (.broke m.rule.name (.tick now) fault) rfl)
    exact absurd hbreaks (Nat.ne_of_gt (breaks_lt_of_broke hbroke.trail))

theorem tickAll_of_ok {round : Round} {outcome : Option Outcome} (index : Nat) (report : Report)
    (rest : List Machine)
    (hresult : (m.handleTick round.aliases w round.now).result = .ok outcome) :
    ∃ report', tickAll round index (m :: rest) w report = tickAll round (index + 1) rest
      ((m.handleTick round.aliases w round.now).world.storeMachine round.generation index
        (m.handleTick round.aliases w round.now).machine) report' := by
  rw [tickAll]
  simp only [hresult]
  cases outcome with
  | none => exact ⟨report, rfl⟩
  | some o => exact ⟨_, rfl⟩

/-- Periodic events make no evaluation due; what the rules publish in passes over them does. -/
theorem goes_tickAll {machines : List Machine} {round : Round} {report : Report}
    (hw : w.Wired) (hcarries : w.Carries rules) (hahead : w.Ahead round.generation index machines)
    (hgeneration : w.engine.generation = round.generation)
    (hbreaks : (tickAll round index machines w report).1.breaks = w.breaks) :
    (∃ report', (tickAll round index machines w report).2 = .ok report') ∧
      Goes rules (dueOf rules w.waiting) w
        (dueOf rules (tickAll round index machines w report).1.waiting)
        (tickAll round index machines w report).1 := by
  induction machines generalizing index w report with
  | nil => exact ⟨⟨report, rfl⟩, .quiet hcarries rfl rfl rfl _⟩
  | cons m rest ih =>
    obtain ⟨added, hacts⟩ := m.acts_handleTick round.aliases w round.now
    let stored := (m.handleTick round.aliases w round.now).world.storeMachine round.generation index
      (m.handleTick round.aliases w round.now).machine
    have hstays : w.Stays stored := (Stays.ofActs hacts).trans (.storeMachine ..)
    have hnext : stored.Ahead round.generation (index + 1) rest :=
      hahead.store (Nat.le_of_eq hgeneration.symm) hacts _
    cases hresult : (m.handleTick round.aliases w round.now).result with
    | error fault =>
      rw [tickAll] at hbreaks
      simp only [hresult] at hbreaks
      obtain ⟨⟨_, hok⟩, _⟩ := goes_tickTurn hw hcarries hahead hgeneration hbreaks
      rw [hresult] at hok
      cases hok
    | ok outcome =>
      obtain ⟨report', hnextAll⟩ := tickAll_of_ok index report rest hresult
      rw [hnextAll] at hbreaks ⊢
      obtain ⟨hfirst, hrest⟩ := breaks_between hstays.trail (stays_tickAll stored ..).trail hbreaks
      obtain ⟨_, hgoes⟩ := goes_tickTurn hw hcarries hahead hgeneration hfirst
      obtain ⟨hok, hlater⟩ := ih (hstays.wired hw) hgoes.carries hnext
        (hgoes.generation.trans hgeneration) hrest
      exact ⟨hok, hgoes.trans hlater⟩

theorem completes_tick (fuel : Nat) (now : Option Moment) (hidle : w.Idle)
    (hcarries : w.Carries rules) (hending : (w.tick fuel now).2 ≠ .unsettled)
    (hbreaks : (w.tick fuel now).1.breaks = w.breaks) :
    Completes rules w (w.tick fuel now).1 := by
  have hrest := hidle.atRest.stays (stays_tick fuel w now)
  let start := w.setDraining true
  let all := start.tickAll (start.tickRound now) 0 start.engine.book.machines {}
  have hwired : start.Wired :=
    ⟨hidle.atRest.wired.attached, hidle.atRest.wired.subscriptions, hidle.atRest.wired.queue⟩
  have hcarried : start.Carries rules := ⟨hcarries.inOrder, hcarries.keepsToBus⟩
  have hahead : start.Ahead start.engine.generation 0 start.engine.book.machines :=
    fun _ => List.drop_zero
  have hstays : start.Stays all.1 := stays_tickAll ..
  have htick := tick_of_idle fuel now hidle.atRest.draining
  cases hresult : all.2 with
  | error fault =>
    have heq : w.tick fuel now = (all.1.setDraining false, .raised fault) := by
      rw [htick, show (tickAll _ _ _ _ _).2 = _ from hresult]
    rw [heq] at hbreaks
    obtain ⟨⟨_, hok⟩, _⟩ := goes_tickAll hwired hcarried hahead rfl hbreaks
    rw [show (tickAll _ _ _ _ _).2 = _ from hresult] at hok
    cases hok
  | ok report =>
    have heq : w.tick fuel now =
        ((drain fuel all.1 report).1.setDraining false, (drain fuel all.1 report).2) := by
      rw [htick, show (tickAll _ _ _ _ _).2 = _ from hresult]
    rw [heq] at hrest hending hbreaks ⊢
    obtain ⟨hfirst, hlast⟩ := breaks_between hstays.trail (stays_drain fuel all.1 report).trail hbreaks
    obtain ⟨_, hgoes⟩ := goes_tickAll hwired hcarried hahead rfl hfirst
    obtain ⟨hlater, hends⟩ := goes_drain fuel (hstays.wired hwired) hgoes.carries hlast
    have hidle' : ((drain fuel all.1 report).1.setDraining false).Idle := ⟨hrest, (hends hending).1⟩
    have hnone : (drain fuel all.1 report).1.waiting = [] := hidle'.waiting_eq_nil
    have hboth := hgoes.trans hlater
    rw [show start.waiting = [] from hidle.waiting_eq_nil, hnone] at hboth
    exact ⟨hidle', hboth.generation, ⟨hboth.carries.inOrder, hcarries.keepsToBus⟩, hboth.steps⟩

/-- What a call from outside that ends does, unless it hands an event to the engine directly: nothing
is left to do after it. -/
theorem completes_perform (fuel : Nat) {c : Call} (hcall : c.viaBus = true) (hidle : w.Idle)
    (hcarries : w.Carries rules) (hending : (w.perform fuel c).2 ≠ .unsettled)
    (hbreaks : (w.perform fuel c).1.breaks = w.breaks) :
    Completes rules w (w.perform fuel c).1 := by
  cases c with
  | event e => cases hcall
  | publish e => exact completes_publishOnBus fuel e hidle hcarries hending hbreaks
  | update r v source => exact completes_updateState fuel r v source hidle hcarries hending hbreaks
  | command r v source => exact completes_sendCommand fuel r v source hidle hcarries hending hbreaks
  | tick now =>
    have htick : (w.tick fuel now).2 ≠ .unsettled := fun h => hending (by simp [perform, h, Ending.map])
    exact completes_tick fuel now hidle hcarries htick hbreaks
  | adjust p => exact .quiet hidle hcarries rfl rfl rfl rfl

end World
end Domotics
