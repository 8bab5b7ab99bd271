import Domotics.Proofs.Run.Punctual
import Domotics.Proofs.Run.Still
import Domotics.Proofs.Transition.Update

/-!
What a round of the rules notes. Every rule notes an update, whatever its pass over it comes to; a command and
a tick leave nothing behind. Rules that are loaded in the middle of a round have noted nothing when it ends.
-/

namespace Domotics

def Event.latest? (d : Reference) (events : List Event) : Option Event :=
  (events.filter (·.updates d)).getLast?

namespace StateTable

variable {t : StateTable} {e : Event}

def recordAll (t : StateTable) (events : List Event) : StateTable := events.foldl record t

theorem recordAll_append (t : StateTable) (events later : List Event) :
    t.recordAll (events ++ later) = (t.recordAll events).recordAll later := List.foldl_append

theorem record_of_not_changesState (h : e.changesState = false) : t.record e = t := by
  rw [record]
  split
  · simp [h]
  · rfl

theorem get?_recordAll (d : Reference) (events : List Event) :
    (({} : StateTable).recordAll events).get? d = (Event.latest? d events).map (·.new) := by
  induction events using List.reverseRecOn with
  | nil => rfl
  | append_singleton events e ih =>
    rw [recordAll_append, recordAll, List.foldl_cons, List.foldl_nil, get?_record, ih, Event.latest?,
      Event.latest?, List.filter_append]
    cases hupdates : e.updates d <;> simp [hupdates]

end StateTable

namespace Happening

def notedBy (name : Document) (trail : List Happening) : List Event :=
  ((outcomesOf name trail).map (·.event)).filter (·.changesState)

@[simp] theorem notedBy_append (name : Document) (t u : List Happening) :
    notedBy name (t ++ u) = notedBy name t ++ notedBy name u := by
  simp [notedBy]

theorem notedBy_map_published (name : Document) (events : List Event) :
    notedBy name (events.map .published) = [] := by
  rw [notedBy, outcomesOf_map_published]
  rfl

end Happening

namespace RuleBook

def Named (rules : List Rule) : Prop := ∀ r ∈ rules, rules.filter (·.name.agrees r.name) = [r]

theorem Holds.named {book : RuleBook} {rules : List Rule} (h : book.Holds rules) :
    Named (book.machines.map (·.rule)) := by
  rw [h.inOrder]
  exact fun r hr => h.apart.filter_agrees hr (h.isScalar r hr)

end RuleBook

namespace Machine

open Happening

def view (m : Machine) : Rule × StateTable := (m.rule, m.cache)

variable (m : Machine) (aliases : AliasRegistry) (w : World) (e : Event) (now : Moment)

theorem view_handle : (m.handle aliases w e now).machine.view = (m.rule, m.cache.record e) := by
  rw [view, (m.passed_handle aliases w e now).rule, m.cache_handle]

theorem rule_handleTick : (m.handleTick aliases w now).machine.rule = m.rule := by
  have hrule := (m.passed_handle aliases w (.tick now) now).rule
  have hticked := m.ticked_handleTick aliases w now
  generalize m.handle aliases w (.tick now) now = pass at hrule hticked
  generalize m.handleTick aliases w now = tick at hticked ⊢
  cases hticked with
  | notDue => rfl
  | unknown => rfl
  | passed _ hplanned => exact hplanned.rule.trans hrule
  | unplanned _ hplanned => exact hplanned.rule.trans hrule

theorem view_handleTick : (m.handleTick aliases w now).machine.view = m.view := by
  rw [view, view, m.rule_handleTick, m.cache_handleTick]

/-- A pass that ends with an outcome shows its event in the trail, if this is an update; what is no update
never shows there. -/
theorem noted_handle : ∃ added,
    w.Acts (Action.allKeepToBus m.rule.actions = true) (m.handle aliases w e now).world added ∧
      (e.changesState = false → ∀ name, notedBy name added = []) ∧
      ∀ o, (m.handle aliases w e now).result = .ok o → ∀ name, notedBy name added =
        if m.rule.name.agrees name then [e].filter (·.changesState) else [] := by
  obtain ⟨inner, hacts, hinner, hwhole⟩ := m.acts_handle aliases w e now
  have hdone : ∀ o, (m.handle aliases w e now).result = .ok o → ∀ name,
      notedBy name (.began m.rule.name e :: inner ++ [m.ending e (m.handle aliases w e now).result]) =
        if m.rule.name.agrees name then [e].filter (·.changesState) else [] := by
    intro o hresult name
    have hrule : o.rule = m.rule.name := (hwhole o hresult).2.rule
    have hevent : o.event = e := (hwhole o hresult).2.event
    rw [notedBy, outcomesOf_pass _ hinner, hresult]
    cases hagrees : m.rule.name.agrees name <;> simp [ending, outcomeOf?, hrule, hevent, hagrees]
  refine ⟨_, hacts, fun hquiet name => ?_, hdone⟩
  cases hresult : (m.handle aliases w e now).result with
  | ok o =>
    have hnoted := hdone o hresult name
    rw [hresult] at hnoted
    rw [hnoted]
    simp [hquiet]
  | error fault =>
    rw [notedBy, outcomesOf_pass _ hinner]
    rfl

theorem noted_handleTick : ∃ added,
    w.Acts (Action.allKeepToBus m.rule.actions = true) (m.handleTick aliases w now).world added ∧
      ∀ name, notedBy name added = [] := by
  obtain ⟨added, hacts, hquiet, -⟩ := m.noted_handle aliases w (.tick now) now
  have hnothing := hquiet rfl
  have hticked := m.ticked_handleTick aliases w now
  generalize m.handle aliases w (.tick now) now = pass at hacts hticked
  generalize m.handleTick aliases w now = tick at hticked ⊢
  cases hticked with
  | notDue => exact ⟨[], .refl w, fun _ => rfl⟩
  | unknown fault => exact ⟨_, .mark w _ rfl, fun _ => rfl⟩
  | passed => exact ⟨added, hacts, hnothing⟩
  | unplanned fault =>
    refine ⟨_, hacts.trans (.mark _ _ rfl), fun name => ?_⟩
    rw [notedBy_append, hnothing]
    rfl

end Machine

namespace World

open Happening

/-- From `w` to `v` no rule notes anything, unless rules are loaded anew. -/
structure Unmoved (w v : World) : Prop where
  views : v.engine.generation = w.engine.generation →
    v.engine.book.machines.map (·.view) = w.engine.book.machines.map (·.view)
  noted : ∃ added, v.trail = w.trail ++ added ∧ ∀ name, notedBy name added = []

/-- Rules that are not those of generation `g` have seen nothing yet. -/
def Blank (g : Nat) (w : World) : Prop :=
  w.engine.generation ≠ g → RuleBook.Named (w.engine.book.machines.map (·.rule)) ∧
    ∀ m ∈ w.engine.book.machines, m.cache = {}

section

variable {plain : Prop} {g index : Nat} {w v v' : World} {e : Event} {m m' : Machine}
  {done rest machines : List Machine} {added : List Happening} {round : Round} {report report' : Report}

theorem Unmoved.refl (w : World) : w.Unmoved w := ⟨fun _ => rfl, [], by simp, fun _ => rfl⟩

theorem Unmoved.store (h : w.Unmoved v) (hahead : v.Ahead w.engine.generation index (m :: rest))
    (hle : w.engine.generation ≤ v.engine.generation) (hacts : v.Acts plain v' added)
    (hadded : ∀ name, notedBy name added = []) (hm' : m'.view = m.view) :
    w.Unmoved (v'.storeMachine w.engine.generation index m') := by
  have hmono := hacts.generation
  obtain ⟨earlier, htrail, hearlier⟩ := h.noted
  refine ⟨fun hsame => ?_, earlier ++ added, ?_, fun name => ?_⟩
  · rw [storeMachine_generation] at hsame
    rw [hahead.map_store (·.view) (by omega) hacts (by omega) hm', h.views (by omega)]
  · rw [storeMachine_trail, hacts.trail, htrail, List.append_assoc]
  · rw [notedBy_append, hearlier, hadded, List.append_nil]

/-- What is no update changes nothing that rules have seen, however the passes over it end. -/
theorem unmoved_processOne (w : World) (h : e.changesState = false) : w.Unmoved (w.processOne e).1 := by
  refine passAll_keeps (fun {v index m rest} _ hv hle hahead => ?_) (.refl w) (Nat.le_refl _) fun _ =>
    List.drop_zero
  obtain ⟨added, hacts, hquiet, -⟩ := m.noted_handle w.engine.book.aliases v e w.platform.now
  refine hv.store hahead hle hacts (hquiet h) ?_
  rw [m.view_handle, StateTable.record_of_not_changesState h]
  rfl

theorem unmoved_tickAll (w : World) (now : Option Moment) :
    w.Unmoved (World.tickAll (w.tickRound now) 0 w.engine.book.machines w {}).1 := by
  refine tickAll_keeps (fun {v index m rest} _ hv hle hahead => ?_) (.refl w) (Nat.le_refl _) fun _ =>
    List.drop_zero
  obtain ⟨added, hacts, hnothing⟩ := m.noted_handleTick _ v _
  exact hv.store hahead hle hacts hnothing (m.view_handleTick ..)

theorem generation_le_passAll (e : Event) (report : Report) (hle : round.generation ≤ w.engine.generation)
    (hahead : w.Ahead round.generation index machines) :
    w.engine.generation ≤ (passAll round e index machines w report).1.engine.generation := by
  refine passAll_keeps (P := fun v => w.engine.generation ≤ v.engine.generation)
    (fun {v index m rest} _ hv _ _ => ?_) (Nat.le_refl _) hle hahead
  obtain ⟨inner, hacts, -⟩ := m.acts_handle round.aliases v e round.now
  exact Nat.le_trans hv (hacts.grows ..).1

/-- A round over an event, when no fault comes out of it and the rules stay loaded: every rule notes the
event, and each passes over it once. -/
theorem passAll_of_ok (hbook : w.engine.book.machines = done ++ rest)
    (hgeneration : w.engine.generation = round.generation)
    (hok : (passAll round e done.length rest w report).2 = .ok report')
    (hsame : (passAll round e done.length rest w report).1.engine.generation = round.generation) :
    (passAll round e done.length rest w report).1.engine.book.machines.map (·.view) =
        done.map (·.view) ++ rest.map (fun m => (m.rule, m.cache.record e)) ∧
      ∃ added, (passAll round e done.length rest w report).1.trail = w.trail ++ added ∧
        ∀ name, notedBy name added = ((rest.map (·.rule)).filter (·.name.agrees name)).flatMap fun _ =>
          [e].filter (·.changesState) := by
  induction rest generalizing done w report with
  | nil => exact ⟨by simp [passAll, hbook], [], by simp [passAll], fun _ => rfl⟩
  | cons m rest ih =>
    obtain ⟨first, hacts, -, hnoted⟩ := m.noted_handle round.aliases w e round.now
    have hview := m.view_handle round.aliases w e round.now
    rw [passAll] at hok hsame ⊢
    generalize m.handle round.aliases w e round.now = pass at hacts hnoted hview hok hsame ⊢
    cases hresult : pass.result with
    | error fault =>
      simp only [hresult] at hok
      cases hok
    | ok o =>
      simp only [hresult] at hok hsame ⊢
      have hstart : w.Ahead round.generation done.length (m :: rest) := fun _ => by
        rw [hbook, List.drop_left]
      have hahead := hstart.store (Nat.le_of_eq hgeneration.symm) hacts pass.machine
      have hmono := hacts.generation
      have hlater := generation_le_passAll e (report.add o m.rule.actions.length)
        (by rw [storeMachine_generation]; omega) hahead
      have hkept : pass.world.engine.generation = round.generation := by
        rw [storeMachine_generation] at hlater
        omega
      -- the rule is put back in its place, and those after it go on from there
      have hnext : (pass.world.storeMachine round.generation done.length pass.machine).engine.book.machines =
          (done ++ [pass.machine]) ++ rest := by
        rw [storeMachine_machines _ hkept, hacts.book (by omega), hbook]
        simp
      have hlength : (done ++ [pass.machine]).length = done.length + 1 := by simp
      rw [← hlength] at hok hsame ⊢
      obtain ⟨hviews, others, htrail, hothers⟩ := ih hnext (by rw [storeMachine_generation, hkept]) hok hsame
      refine ⟨?_, first ++ others, ?_, fun name => ?_⟩
      · rw [hviews, List.map_append, List.map_singleton, hview, List.append_assoc]
        rfl
      · rw [htrail, storeMachine_trail, hacts.trail, List.append_assoc]
      · rw [notedBy_append, hothers, hnoted o hresult, List.map_cons]
        cases hagrees : m.rule.name.agrees name <;> simp [List.filter_cons, hagrees]

theorem passLaw_blank (g : Nat) : PassLaw (fun _ => True) (Blank g) := by
  refine passLaw_of_frame (fun hbook hgeneration _ _ _ h => ?_) fun {w} now _ h => ?_
  · rwa [Blank, hbook, hgeneration]
  · rw [load, Engine.load]
    cases hbuild : RuleBook.build w.lastRuleSet (now.getD w.platform.now) w.platform.solar with
    | error fault => exact h
    | ok book =>
      have hbook := RuleBook.holds_of_build hbuild
      exact fun _ => ⟨hbook.named, fun m hm => (hbook.fresh m hm).cache⟩

theorem Blank.store (h : w.Blank g) (index : Nat) (m : Machine) : (w.storeMachine g index m).Blank g := by
  intro hnew
  rw [storeMachine_generation] at hnew
  rw [storeMachine, Engine.store, if_neg hnew]
  exact h hnew

theorem blank_processOne (w : World) (e : Event) : (w.processOne e).1.Blank w.engine.generation := by
  have law := passLaw_blank w.engine.generation
  refine passAll_keeps (fun {v index m rest} _ hv _ _ => ?_) (fun hnew => absurd rfl hnew) (Nat.le_refl _)
    fun _ => List.drop_zero
  exact (law.handle (Action.allLoadOnly_true _) _ e _ hv).store index _

theorem blank_tickAll (w : World) (now : Option Moment) :
    (World.tickAll (w.tickRound now) 0 w.engine.book.machines w {}).1.Blank w.engine.generation := by
  have law := passLaw_blank w.engine.generation
  refine tickAll_keeps (fun {v index m rest} _ hv _ _ => ?_) (fun hnew => absurd rfl hnew) (Nat.le_refl _)
    fun _ => List.drop_zero
  exact (law.handleTick (Action.allLoadOnly_true _) _ _ hv).store index _

end

end World
end Domotics
