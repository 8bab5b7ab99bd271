import Domotics.Proofs.Run.Effect
import Domotics.Proofs.Run.Noted
import Domotics.Proofs.Run.Reload
import Mathlib.Data.List.Forall2

/-!
The record of fires agrees with the run. However calls, loads and resets come one after the other, and whichever of
them break: the count of a name is the number of passes of rules of this name that fired since the last reset, also
when other rules have been loaded since, and the history holds the records of the last of these passes.
-/

namespace Domotics

def Happening.fired? : Happening → Option Outcome
  | passed o => if o.fired then some o else none
  | _ => none

def Happening.firedIn (trail : List Happening) : List Outcome := trail.filterMap fired?

@[simp] theorem Happening.firedIn_append (t u : List Happening) : firedIn (t ++ u) = firedIn t ++ firedIn u :=
  List.filterMap_append

/-- Between the beginning and the end of a pass no other pass ends. -/
theorem Happening.firedIn_pass {rule : Document} {e : Event} {inner : List Happening} (last : Happening)
    (h : ∀ x ∈ inner, x.isInner = true) : firedIn (.began rule e :: inner ++ [last]) = last.fired?.toList :=
  filterMap_pass (fun x hx => by cases x <;> simp_all [endsPass, fired?]) last h

/-- A record tells of a pass that fired: of its actions, which were run one after the other, and of those that
failed. -/
def Pass.Recorded (p : Pass) (r : FiringRecord) : Prop := ∃ aliases w runs s,
  Action.Performs ⟨{ rule := p.rule.name, event := p.event, now := p.outcome.time, aliases }, w⟩ runs s ∧
  s.world.trail = w.trail ++ p.inner ∧ runs.map (·.1) = p.rule.actions ∧
  r = p.rule.record p.event p.outcome.time (Action.failures runs)

theorem Pass.Recorded.rule {p : Pass} {r : FiringRecord} (h : p.Recorded r) : r.rule = p.rule.name := by
  obtain ⟨_, _, _, _, -, -, -, rfl⟩ := h
  rfl

namespace Machine

variable {m m' : Machine} {aliases : AliasRegistry} {w w' : World} {p : Pass}

theorem Completed.recorded (h : m.Completed aliases w p m' w') (hfired : p.outcome.fired = true) : ∃ record,
    p.Recorded record ∧ w'.engine.history = Engine.lastOf Engine.historySize (w.engine.history ++ [record]) := by
  obtain ⟨runs, s, hperforms, hactions, hworld, hhistory⟩ := (h.fired hfired).effects
  rw [← h.rule] at hperforms hactions hhistory
  refine ⟨_, ⟨aliases, _, runs, s, hperforms, ?_, hactions, rfl⟩, hhistory⟩
  have htrail : w'.trail = s.world.trail ++ [.passed p.outcome] := by
    rw [hworld, World.mark_trail]
    rfl
  rw [h.trail, Pass.trail, ← List.append_assoc] at htrail
  have hinner := List.append_cancel_right htrail
  rw [← hinner, World.mark_trail]
  simp

/-- A pass that breaks leaves the record as it is, whatever its actions have done. -/
theorem unrecorded_of_error {e : Event} {now : Moment} {fault : Fault}
    (h : (m.handle aliases w e now).result = .error fault) :
    (m.handle aliases w e now).world.engine.history = w.engine.history ∧
      (m.handle aliases w e now).world.engine.fireCounts = w.engine.fireCounts := by
  have hafter := (World.actionLaw_history w.engine.history w.engine.fireCounts).runEach
    (s := ⟨{ rule := m.rule.name, event := e, now, aliases }, w.mark (.began m.rule.name e)⟩)
    (Action.allLoadOnly_true m.rule.actions) ⟨rfl, rfl⟩
  have hhandled := m.handled_handle aliases w e now
  generalize m.handle aliases w e now = pass at h hhandled ⊢
  cases hhandled with
  | broke => exact ⟨rfl, rfl⟩
  | rested => cases h
  | fired => cases h
  | unplanned _ _ heq =>
    subst heq
    exact hafter

end Machine

namespace World

open Happening

/-- What the record of a world says, beside the passes that have fired since it was empty. -/
structure Tally (before : List Happening) (fires : List Pass) (since : List Happening) (w : World) : Prop where
  trail : w.trail = before ++ since
  outcomes : firedIn since = fires.map (·.outcome)
  shown : ∀ p ∈ fires, p.Whole ∧ p.trail <:+: since
  history : ∃ records, List.Forall₂ Pass.Recorded fires records ∧
    w.engine.history = Engine.lastOf Engine.historySize records
  counts : ∀ name, name.isScalar = true → w.engine.firedCount name = fires.countP (·.rule.name.agrees name)

section

variable {before since added : List Happening} {fires : List Pass} {w w' : World} {m : Machine}

theorem tally_nil (h : w.engine.history = []) (hcounts : w.engine.fireCounts = []) : w.Tally w.trail [] [] where
  trail := (List.append_nil _).symm
  outcomes := rfl
  shown := by simp
  history := ⟨[], .nil, h⟩
  counts name _ := by simp [Engine.firedCount, hcounts]

theorem Tally.still (h : w.Tally before fires since) (htrail : w'.trail = w.trail ++ added)
    (hnone : firedIn added = []) (hhistory : w'.engine.history = w.engine.history)
    (hcounts : w'.engine.fireCounts = w.engine.fireCounts) : w'.Tally before fires (since ++ added) where
  trail := by rw [htrail, h.trail, List.append_assoc]
  outcomes := by rw [firedIn_append, hnone, List.append_nil, h.outcomes]
  shown p hp := ⟨(h.shown p hp).1, (h.shown p hp).2.trans (List.prefix_append ..).isInfix⟩
  history := hhistory ▸ h.history
  counts name hname := by
    rw [← h.counts name hname]
    simp only [Engine.firedCount, hcounts]

theorem Tally.frame (h : w.Tally before fires since) (htrail : w'.trail = w.trail)
    (hhistory : w'.engine.history = w.engine.history) (hcounts : w'.engine.fireCounts = w.engine.fireCounts) :
    w'.Tally before fires since := by
  have hnothing : w'.trail = w.trail ++ [] := by rw [htrail, List.append_nil]
  have hstill := h.still hnothing rfl hhistory hcounts
  rwa [List.append_nil] at hstill

theorem Tally.fire {aliases : AliasRegistry} {p : Pass} {m' : Machine} (h : w.Tally before fires since)
    (hname : m.rule.name.isScalar = true) (hcompleted : m.Completed aliases w p m' w')
    (hfired : p.outcome.fired = true) : w'.Tally before (fires ++ [p]) (since ++ p.trail) where
  trail := by rw [hcompleted.trail, h.trail, List.append_assoc]
  outcomes := by
    rw [firedIn_append, h.outcomes, Pass.trail, firedIn_pass _ hcompleted.whole.inner]
    simp [fired?, hfired]
  shown := by
    intro q hq
    rcases List.mem_append.mp hq with hq | hq
    · exact ⟨(h.shown q hq).1, (h.shown q hq).2.trans (List.prefix_append ..).isInfix⟩
    · rw [List.mem_singleton.mp hq]
      exact ⟨hcompleted.whole, (List.suffix_append ..).isInfix⟩
  history := by
    obtain ⟨records, hrecords, hhistory⟩ := h.history
    obtain ⟨record, hrecord, hadded⟩ := hcompleted.recorded hfired
    refine ⟨records ++ [record], List.rel_append hrecords (.cons hrecord .nil), ?_⟩
    rw [hadded, hhistory, Engine.lastOf_append_lastOf]
  counts name hlooked := by
    rw [hcompleted.counted hfired hname hlooked, h.counts name hlooked, List.countP_append]
    simp [List.countP_cons, hcompleted.rule]

/-- Where the record of a world speaks of the fires since it was empty, and the loaded rules have names to be counted
under. -/
structure KeepsCount (before : List Happening) (w : World) : Prop where
  named : ∀ m ∈ w.engine.book.machines, m.rule.name.isScalar = true
  tally : ∃ fires since, w.Tally before fires since

theorem KeepsCount.congr (h : w.KeepsCount before) (hbook : w'.engine.book = w.engine.book)
    (htrail : w'.trail = w.trail ++ added) (hnone : firedIn added = [])
    (hhistory : w'.engine.history = w.engine.history) (hcounts : w'.engine.fireCounts = w.engine.fireCounts) :
    w'.KeepsCount before := by
  obtain ⟨fires, since, htally⟩ := h.tally
  exact ⟨fun m hm => h.named m (hbook ▸ hm), fires, _, htally.still htrail hnone hhistory hcounts⟩

theorem KeepsCount.frame (h : w.KeepsCount before) (hbook : w'.engine.book = w.engine.book)
    (htrail : w'.trail = w.trail) (hhistory : w'.engine.history = w.engine.history)
    (hcounts : w'.engine.fireCounts = w.engine.fireCounts) : w'.KeepsCount before := by
  obtain ⟨fires, since, htally⟩ := h.tally
  exact ⟨fun m hm => h.named m (hbook ▸ hm), fires, since, htally.frame htrail hhistory hcounts⟩

theorem Tally.handle (h : w.Tally before fires since) (hname : m.rule.name.isScalar = true)
    (aliases : AliasRegistry) (e : Event) (now : Moment) :
    ∃ fires since, (m.handle aliases w e now).world.Tally before fires since := by
  cases hresult : (m.handle aliases w e now).result with
  | ok o =>
    obtain ⟨p, -, -, -, hcompleted⟩ := Machine.completed_handle hresult
    cases hfired : p.outcome.fired with
    | true => exact ⟨_, _, h.fire hname hcompleted hfired⟩
    | false =>
      have hnone : firedIn p.trail = [] := by
        rw [Pass.trail, firedIn_pass _ hcompleted.whole.inner]
        simp [fired?, hfired]
      have hengine := (hcompleted.unmoved hfired).engine
      exact ⟨_, _, h.still hcompleted.trail hnone (by rw [hengine]) (by rw [hengine])⟩
  | error fault =>
    obtain ⟨inner, hacts, hinner, -⟩ := m.acts_handle aliases w e now
    obtain ⟨hhistory, hcounts⟩ := Machine.unrecorded_of_error hresult
    have hnone : firedIn (.began m.rule.name e :: inner ++ [m.ending e (m.handle aliases w e now).result]) = [] := by
      rw [firedIn_pass _ hinner, hresult]
      rfl
    exact ⟨_, _, h.still hacts.trail hnone hhistory hcounts⟩

theorem Tally.handleTick (h : w.Tally before fires since) (hname : m.rule.name.isScalar = true)
    (aliases : AliasRegistry) (now : Moment) :
    ∃ fires since, (m.handleTick aliases w now).world.Tally before fires since := by
  have hpass := h.handle hname aliases (.tick now) now
  have hticked := m.ticked_handleTick aliases w now
  generalize m.handle aliases w (.tick now) now = pass at hpass hticked
  generalize m.handleTick aliases w now = tick at hticked ⊢
  obtain ⟨fires', since', hpass⟩ := hpass
  cases hticked with
  | notDue => exact ⟨fires, since, h⟩
  | unknown fault => exact ⟨_, _, h.still (w.mark_trail _) rfl rfl rfl⟩
  | passed => exact ⟨fires', since', hpass⟩
  | unplanned fault => exact ⟨_, _, hpass.still (pass.world.mark_trail _) rfl rfl rfl⟩

theorem named_load (h : ∀ m ∈ w.engine.book.machines, m.rule.name.isScalar = true) (rs : RuleSet)
    (now : Option Moment) : ∀ m ∈ (w.load rs now).1.engine.book.machines, m.rule.name.isScalar = true := by
  rw [World.load, Engine.load]
  cases hbuild : RuleBook.build rs (now.getD w.platform.now) w.platform.solar with
  | error fault => exact h
  | ok book => exact fun m hm => ((RuleBook.holds_of_build hbuild).fresh m hm).name

theorem passLaw_named : PassLaw (fun _ => True) fun w =>
    ∀ m ∈ w.engine.book.machines, m.rule.name.isScalar = true :=
  passLaw_of_frame (fun hbook _ _ _ _ h m hm => h m (hbook ▸ hm)) fun now _ h => named_load h _ now

theorem KeepsCount.store (hnamed : ∀ m ∈ w.engine.book.machines, m.rule.name.isScalar = true)
    (hm : m.rule.name.isScalar = true) (htally : ∃ fires since, w.Tally before fires since) (generation index : Nat) :
    (w.storeMachine generation index m).KeepsCount before := by
  obtain ⟨fires, since, htally⟩ := htally
  have hrecord : (w.storeMachine generation index m).engine.history = w.engine.history ∧
      (w.storeMachine generation index m).engine.fireCounts = w.engine.fireCounts := by
    rw [storeMachine, Engine.store]
    split <;> exact ⟨rfl, rfl⟩
  have hstill := htally.frame (w.storeMachine_trail generation index m) hrecord.1 hrecord.2
  exact ⟨forall_mem_storeMachine hnamed hm generation index, fires, since, hstill⟩

theorem invariant_keepsCount (before : List Happening) : Invariant (KeepsCount before) where
  bus _ h := h.frame rfl rfl rfl rfl
  queue _ _ h := h.frame rfl rfl rfl rfl
  report _ h := h.frame rfl rfl rfl rfl
  platform _ h := h.frame rfl rfl rfl rfl
  published e h := h.congr rfl (mark_trail ..) rfl rfl rfl
  processOne {w} e h := by
    refine passAll_keeps (fun {v index m rest} hm hv _ _ => ?_) h (Nat.le_refl _) fun _ => List.drop_zero
    have hactions := Action.allLoadOnly_true m.rule.actions
    obtain ⟨fires, since, htally⟩ := hv.tally
    have hrule := (m.passed_handle w.engine.book.aliases v e w.platform.now).rule
    exact .store (passLaw_named.handle hactions _ e _ hv.named) (hrule ▸ h.named m hm)
      (htally.handle (h.named m hm) _ e _) _ index
  tickAll {w} now h := by
    refine tickAll_keeps (fun {v index m rest} hm hv _ _ => ?_) h (Nat.le_refl _) fun _ => List.drop_zero
    have hactions := Action.allLoadOnly_true m.rule.actions
    obtain ⟨fires, since, htally⟩ := hv.tally
    have hrule := m.rule_handleTick (w.tickRound now).aliases v (w.tickRound now).now
    exact .store (passLaw_named.handleTick hactions _ _ hv.named) (hrule ▸ h.named m hm)
      (htally.handleTick (h.named m hm) _ _) _ index

variable (fuel : Nat)

theorem moves_append (w : World) (xs ys : List Move) :
    (w.moves fuel (xs ++ ys)).1 = ((w.moves fuel xs).1.moves fuel ys).1 := by
  induction xs generalizing w with
  | nil => rfl
  | cons x rest ih => exact ih (w.move fuel x).1

theorem record_load (w : World) (rs : RuleSet) (now : Option Moment) : (w.load rs now).1.trail = w.trail ∧
    (w.load rs now).1.engine.history = w.engine.history ∧
    (w.load rs now).1.engine.fireCounts = w.engine.fireCounts := by
  rw [World.load, Engine.load]
  cases RuleBook.build rs (now.getD w.platform.now) w.platform.solar <;> exact ⟨rfl, rfl, rfl⟩

theorem KeepsCount.move (h : w.KeepsCount before) {x : Move} (hx : x ≠ .resetHistory) :
    (w.move fuel x).1.KeepsCount before := by
  cases x with
  | call c =>
    rw [move_call]
    exact (invariant_keepsCount before).perform fuel c h
  | load rs now =>
    obtain ⟨htrail, hhistory, hcounts⟩ := record_load w rs now
    obtain ⟨fires, since, htally⟩ := h.tally
    exact ⟨named_load h.named rs now, fires, since, htally.frame htrail hhistory hcounts⟩
  | resetHistory => exact absurd rfl hx

theorem countP_of_recorded {records : List FiringRecord} (h : List.Forall₂ Pass.Recorded fires records)
    (name : Document) : records.countP (·.rule.agrees name) = fires.countP (·.rule.name.agrees name) := by
  induction h with
  | nil => rfl
  | cons hrecord _ ih => rw [List.countP_cons, List.countP_cons, ih, hrecord.rule]

theorem Tally.agrees (h : w.Tally before fires since) :
    List.Forall₂ Pass.Recorded (Engine.lastOf Engine.historySize fires) w.engine.history ∧
    ∀ name, name.isScalar = true →
      w.engine.firedCount name = (firedIn since).countP (·.rule.agrees name) ∧
      (w.engine.isTriggered name = true ↔ 0 < (firedIn since).countP (·.rule.agrees name)) ∧
      (w.engine.isNotTriggered name = true ↔ (firedIn since).countP (·.rule.agrees name) = 0) ∧
      (fires.length ≤ Engine.historySize →
        w.engine.firedCount name = w.engine.history.countP (·.rule.agrees name)) := by
  obtain ⟨records, hrecords, hhistory⟩ := h.history
  have hlength := hrecords.length_eq
  refine ⟨?_, fun name hname => ?_⟩
  · rw [hhistory, Engine.lastOf, Engine.lastOf, hlength]
    exact List.forall₂_drop _ hrecords
  · have hnames : (firedIn since).countP (·.rule.agrees name) = fires.countP (·.rule.name.agrees name) := by
      rw [h.outcomes, List.countP_map]
      refine List.countP_congr fun p hp => ?_
      rw [Function.comp_apply, (h.shown p hp).1.rule]
    rw [Engine.isTriggered, Engine.isNotTriggered, hnames, h.counts name hname]
    refine ⟨rfl, by simp, by simp, fun hle => ?_⟩
    rw [hhistory, Engine.lastOf_of_length_le (hlength ▸ hle), countP_of_recorded hrecords]

/-- The last reset splits the moves of a run, and what comes after it keeps count. -/
theorem keepsCount_moves {start : World} (h : start.engine = {}) (xs : List Move) : ∃ before after,
    xs = before ++ after ∧ (before = [] ∨ ∃ earlier, before = earlier ++ [.resetHistory]) ∧ .resetHistory ∉ after ∧
    (start.moves fuel xs).1.KeepsCount (start.moves fuel before).1.trail := by
  induction xs using List.reverseRecOn with
  | nil =>
    have hstart : start.KeepsCount start.trail := ⟨by simp [h], [], [], tally_nil (by rw [h]) (by rw [h])⟩
    exact ⟨[], [], rfl, .inl rfl, List.not_mem_nil, hstart⟩
  | append_singleton xs x ih =>
    obtain ⟨before, after, rfl, hbefore, hafter, hkeeps⟩ := ih
    have hmove : (start.moves fuel (before ++ after ++ [x])).1 =
        ((start.moves fuel (before ++ after)).1.move fuel x).1 := moves_append fuel start (before ++ after) [x]
    by_cases hx : x = .resetHistory
    · subst hx
      refine ⟨before ++ after ++ [.resetHistory], [], (List.append_nil _).symm, .inr ⟨_, rfl⟩, List.not_mem_nil, ?_⟩
      rw [hmove]
      exact ⟨hkeeps.named, [], [], tally_nil rfl rfl⟩
    · refine ⟨before, after ++ [x], List.append_assoc .., hbefore, by simp [hafter, Ne.symm hx], ?_⟩
      rw [hmove]
      exact hkeeps.move fuel hx

/-- The record of fires agrees with the run. However calls, loads and resets come one after the other, from an engine
that has done nothing yet, there are the passes that fired since the last reset: the history holds the records of the
last hundred of them, oldest first; and each name counts as often as rules of this name have fired among them, so that
up to a hundred fires the history has as many records of each. -/
theorem record_agrees_with_run {start : World} (h : start.engine = {}) (xs : List Move) :
    let w := (start.moves fuel xs).1
    ∃ before after, xs = before ++ after ∧ (before = [] ∨ ∃ earlier, before = earlier ++ [.resetHistory]) ∧
      .resetHistory ∉ after ∧ ∃ fires since, w.trail = (start.moves fuel before).1.trail ++ since ∧
        firedIn since = fires.map (·.outcome) ∧ (∀ p ∈ fires, p.Whole ∧ p.trail <:+: since) ∧
        List.Forall₂ Pass.Recorded (Engine.lastOf Engine.historySize fires) w.engine.history ∧
        ∀ name, name.isScalar = true →
          w.engine.firedCount name = (firedIn since).countP (·.rule.agrees name) ∧
          (w.engine.isTriggered name = true ↔ 0 < (firedIn since).countP (·.rule.agrees name)) ∧
          (w.engine.isNotTriggered name = true ↔ (firedIn since).countP (·.rule.agrees name) = 0) ∧
          (fires.length ≤ Engine.historySize →
            w.engine.firedCount name = w.engine.history.countP (·.rule.agrees name)) := by
  intro w
  obtain ⟨before, after, hxs, hbefore, hafter, hkeeps⟩ := keepsCount_moves fuel h xs
  obtain ⟨fires, since, htally⟩ := hkeeps.tally
  exact ⟨before, after, hxs, hbefore, hafter, fires, since, htally.trail, htally.outcomes, htally.shown, htally.agrees⟩

end

def tallied : RuleSet :=
  { rules := [{ name := .text "tally", triggers := [.all []], cooldown := .zero, actions := [.fail "nothing"] }] }

/-- The rule fires, the history is forgotten, the rule fires, is loaded anew, and fires once more. -/
def talliedMoves : List Move :=
  let comes : Move := .call (.event { ref := none, kind := .command, time := ⟨0, none⟩ })
  [.load tallied none, comes, .resetHistory, comes, .load tallied none, comes]

theorem record_agrees_with_run_tallied :
    let start : World := { platform := { now := ⟨0, none⟩ } }
    let w := (start.moves 5 talliedMoves).1
    start.engine = {} ∧ w.engine.firedCount (.text "tally") = 2 ∧ (firedIn w.trail).length = 3 ∧
    w.engine.history.map (·.errors) = [["nothing"], ["nothing"]] ∧
    ∃ before after, talliedMoves = before ++ after ∧ .resetHistory ∉ after ∧ ∃ fires since,
      w.trail = (start.moves 5 before).1.trail ++ since ∧ firedIn since = fires.map (·.outcome) ∧
      List.Forall₂ Pass.Recorded (Engine.lastOf Engine.historySize fires) w.engine.history := by
  intro start w
  have hcount : w.engine.firedCount (.text "tally") = 2 := by decide +kernel
  have hfires : (firedIn w.trail).length = 3 := by decide +kernel
  have herrors : w.engine.history.map (·.errors) = [["nothing"], ["nothing"]] := by decide +kernel
  -- From here on nothing is to evaluate the moves.
  have hw : (start.moves 5 talliedMoves).1 = w := rfl
  have hnew : start.engine = {} := rfl
  have hrun := record_agrees_with_run 5 hnew talliedMoves
  rw [hw] at hrun
  clear_value w
  obtain ⟨before, after, hxs, -, hafter, fires, since, htrail, hfired, -, hrecorded, -⟩ := hrun
  exact ⟨hnew, hcount, hfires, herrors, before, after, hxs, hafter, fires, since, htrail, hfired, hrecorded⟩

end World
end Domotics
