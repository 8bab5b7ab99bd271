import Domotics.Proofs.Run.Orderly
import Domotics.Proofs.Run.Punctual
import Domotics.Proofs.Run.Reload
import Domotics.Proofs.Run.Verdict

/-!
The engine is never stuck. After every call that ends, and after every load, nothing is under way: the engine is
not at work, the bus delivers nothing and no rule is in the middle of a pass. The events that a broken call has
left waiting are the first that the rules are handed when the engine is called again, and after them comes the
event of that call; only a load or another break keeps it from them.
-/

namespace Domotics

namespace Machine

variable (m : Machine) (aliases : AliasRegistry) (w : World) (e : Event) (now : Moment)

theorem phase_handle : (m.handle aliases w e now).machine.phase = .idle := by
  have hhandled := m.handled_handle aliases w e now
  generalize m.handle aliases w e now = pass at hhandled ⊢
  cases hhandled <;> rfl

theorem phase_handleTick (h : m.phase = .idle) : (m.handleTick aliases w now).machine.phase = .idle := by
  have hpass := m.phase_handle aliases w (.tick now) now
  have hticked := m.ticked_handleTick aliases w now
  generalize m.handleTick aliases w now = tick at hticked ⊢
  cases hticked with
  | notDue => exact h
  | unknown => exact h
  | passed _ hplanned => exact hplanned.phase.trans hpass
  | unplanned _ hplanned => exact hplanned.phase.trans hpass

end Machine

namespace World

open Turn Happening

def RulesIdle (w : World) : Prop := ∀ m ∈ w.engine.book.machines, m.phase = .idle

structure AtEase (w : World) : Prop extends Quiet w where
  idle : w.RulesIdle

section

variable {w w' : World} (fuel : Nat)

theorem RulesIdle.load (h : w.RulesIdle) (rs : RuleSet) (now : Option Moment) : (w.load rs now).1.RulesIdle := by
  rw [World.load, Engine.load]
  cases hbuild : RuleBook.build rs (now.getD w.platform.now) w.platform.solar with
  | error fault => exact h
  | ok book => exact fun m hm => ((RuleBook.holds_of_build hbuild).fresh m hm).phase

theorem passLaw_rulesIdle : PassLaw (fun _ => True) RulesIdle :=
  passLaw_of_frame (fun hbook _ _ _ _ h m hm => h m (hbook ▸ hm)) fun now _ h => h.load _ now

theorem invariant_rulesIdle : Invariant RulesIdle where
  bus _ h := h
  queue _ _ h := h
  report _ h := h
  platform _ h := h
  published _ h := h
  processOne e h := by
    refine passAll_keeps (fun {w index m rest} _ hw _ _ => ?_) h (Nat.le_refl _) fun _ => List.drop_zero
    have hactions := Action.allLoadOnly_true m.rule.actions
    exact forall_mem_storeMachine (passLaw_rulesIdle.handle hactions _ e _ hw) (m.phase_handle ..) _ index
  tickAll now h := by
    refine tickAll_keeps (fun {w index m rest} hm hw _ _ => ?_) h (Nat.le_refl _) fun _ => List.drop_zero
    have hactions := Action.allLoadOnly_true m.rule.actions
    exact forall_mem_storeMachine (passLaw_rulesIdle.handleTick hactions _ _ hw) (m.phase_handleTick _ _ _ (h m hm)) _
      index

/-- A move submits its event first of all, if it is a call of the engine for one. -/
def Move.Opens (x : Move) (turns : List Turn) : Prop :=
  ∀ e, x = .call (.event e) → ∃ later, turns = .joined e false :: later

theorem comesTo_event (h : w.Quiet) (e : Event) (hending : (w.processEvent fuel e).2 ≠ .unsettled) :
    ∃ turns, Rounds turns ∧ w.Works (.joined e false :: turns) (w.processEvent fuel e) ∧
      w.ComesTo (.joined e false :: turns) (w.processEvent fuel e).1 := by
  obtain ⟨turns, hrounds, hworks⟩ := works_event fuel e h.draining
  exact ⟨turns, hrounds, hworks, (hworks.comesTo h hending).1⟩

theorem comesTo_load (rs : RuleSet) (now : Option Moment) : ∃ turns, w.ComesTo turns (w.load rs now).1 := by
  rcases hload : w.load rs now with ⟨w', fault | ⟨⟩⟩
  · rw [load, Engine.load] at hload
    cases hbuild : RuleBook.build rs (now.getD w.platform.now) w.platform.solar with
    | error other =>
      simp only [hbuild, Prod.mk.injEq] at hload
      obtain ⟨rfl, -⟩ := hload
      exact ⟨[], .quiet rfl rfl rfl⟩
    | ok book => simp [hbuild] at hload
  · obtain ⟨book, -, rfl⟩ := build_of_load hload
    refine ⟨[.renewed (book.machines.map (·.rule.name))], ⟨[], ?_, rfl⟩, fun _ => .inr rfl⟩
    exact {
      trail := by simp [trail]
      line := .single (.renewed ..)
      generation := rfl
      subscriptions := rfl
      ended := rfl }

theorem Quiet.load (h : w.Quiet) (rs : RuleSet) (now : Option Moment) : (w.load rs now).1.Quiet := by
  have hbus : (w.load rs now).1.bus = w.bus := by
    rw [World.load]
    split <;> rfl
  exact ⟨(draining_load rs now).trans h.draining, hbus ▸ h.dispatching, hbus ▸ h.queue⟩

theorem settles_move_call (c : Call) : (w.move fuel (.call c)).2.settles = (w.perform fuel c).2.settles := by
  cases c with
  | event | tick => exact (Ending.settles_map _ _).symm
  | publish | update | command => exact Ending.settles_map _ _
  | adjust => rfl

theorem AtEase.move (h : w.AtEase) (x : Move) (hending : (w.move fuel x).2 ≠ .unsettled) :
    (∃ turns, x.Opens turns ∧ w.ComesTo turns (w.move fuel x).1) ∧ (w.move fuel x).1.AtEase := by
  cases x with
  | call c =>
    have hperforms : (w.perform fuel c).2 ≠ .unsettled := by
      rwa [← Ending.settles_iff, ← settles_move_call, Ending.settles_iff]
    obtain ⟨⟨turns, hanswers⟩, hquiet⟩ := rested_perform fuel h.toQuiet c hperforms
    have hidle := invariant_rulesIdle.perform fuel c h.idle
    rw [move_call]
    refine ⟨?_, hquiet, hidle⟩
    cases c with
    | event e =>
      obtain ⟨turns, -, -, hanswers⟩ := comesTo_event fuel h.toQuiet e hending
      exact ⟨_, fun _ heq => ⟨turns, by cases heq; rfl⟩, hanswers⟩
    | publish | update | command | tick | adjust => exact ⟨turns, fun _ => nofun, hanswers⟩
  | load rs now =>
    obtain ⟨turns, hanswers⟩ := comesTo_load (w := w) rs now
    exact ⟨⟨turns, fun _ => nofun, hanswers⟩, h.toQuiet.load rs now, h.idle.load rs now⟩
  | resetHistory =>
    refine ⟨⟨[], fun _ => nofun, ⟨[], ?_, rfl⟩, fun _ => .inl rfl⟩, ⟨h.draining, h.dispatching, h.queue⟩, h.idle⟩
    exact {
      trail := by simp [World.move, trail]
      line := .nil _
      generation := rfl
      subscriptions := rfl
      ended := rfl }

theorem AtEase.moves (h : w.AtEase) (xs : List Move) (hends : ∀ x ∈ (w.moves fuel xs).2, x.1.settles = true) :
    (∃ courses : List (List Turn), List.Forall₂ Move.Opens xs courses ∧
      w.ComesTo courses.flatten (w.moves fuel xs).1) ∧ (w.moves fuel xs).1.AtEase := by
  induction xs generalizing w with
  | nil => exact ⟨⟨[], .nil, .quiet rfl rfl rfl⟩, h⟩
  | cons x rest ih =>
    obtain ⟨hfirst, hothers⟩ := List.forall_mem_cons.mp hends
    obtain ⟨⟨turns, hopens, hanswers⟩, hease⟩ := h.move fuel x (Ending.settles_iff.mp hfirst)
    obtain ⟨⟨courses, hcourses, hlater⟩, hrest⟩ := ih hease hothers
    exact ⟨⟨turns :: courses, .cons hopens hcourses, hanswers.trans hlater⟩, hrest⟩

/-- What becomes of an event that the engine is called for when others wait. Either the rules are handed those
others and then the event, on which they are evaluated in turn; or a rule that fires on one of the others loads
rules, and what waits is dropped; or a rule breaks on one of the others, and the event goes on waiting. -/
inductive TakesUp (w : World) (e : Event) (turns : List Turn) (out : World × Ending Report) : Prop where
  | evaluated {earlier later : List Turn} {ends : PassEnds} (hturns : turns = earlier ++ .handed e ends :: later)
      (hsame : ∀ t ∈ earlier, t.renews = false) (hbefore : handedIn earlier = w.engine.pending)
      (hends : InTurn w.engine.ruleNames ends)
  | dropped {earlier later : List Turn} {others : List Document}
      (hturns : turns = earlier ++ .renewed others :: later) (hbegan : handedIn earlier ≠ [])
      (hbefore : handedIn earlier <+: w.engine.pending)
  | kept {rule : Document} {x : Event} {fault : Fault} {left behind : List Event} (hraised : out.2 = .raised fault)
      (hbroke : (rule, x, some fault) ∈ passesIn turns) (hx : x ∈ handedIn turns)
      (hbefore : w.engine.pending = handedIn turns ++ left) (hwaiting : out.1.engine.pending = left ++ e :: behind)

/-- One of these three it is. -/
theorem takesUp_processEvent {e : Event} {turns : List Turn} {out : World × Ending Report} (hrounds : Rounds turns)
    (hworks : w.Works (.joined e false :: turns) out) (hending : out.2 ≠ .unsettled) : w.TakesUp e turns out := by
  obtain ⟨⟨added, hshifts, -⟩, hfaults, hdone⟩ := hworks
  cases hshifts.line with
  | cons first later =>
    obtain rfl := first.eq_of_joined
    cases later.fate (rfl : _ = w.engine.pending ++ e :: []) with
    | handed hturns hsame hbefore hends => exact .evaluated hturns hsame hbefore hends
    | dropped hturns _ hbefore => exact .dropped hturns (hrounds.handedIn_ne_nil hturns rfl) hbefore
    | @waits left behind _ hbefore hwaiting =>
      have hpending : out.1.engine.pending = left ++ e :: behind := hwaiting
      rcases hout : out.2 with report | fault | _
      · simp [hdone report hout] at hpending
      · have hall : faultsIn turns = [fault] := hfaults.trans (by rw [hout]; rfl)
        have hmem : fault ∈ faultsIn turns := by simp [hall]
        obtain ⟨⟨rule, x, broke⟩, hbroke, hfault⟩ := List.mem_filterMap.mp hmem
        cases hfault
        exact .kept hout hbroke (hrounds.mem_handedIn _ hbroke) hbefore hpending
      · exact absurd hout hending

/-- However calls and loads come one after the other, and whichever of them break, as long as they end: nothing is
under way after them. Each event that was submitted has been handed to the rules once at most, in the order of
submission, and if no rules have been loaded, once unless it waits. And the next call of the engine takes up its
event, after those that wait. -/
theorem moves_never_stick {start : World} (h : start.AtEase) (xs : List Move)
    (hends : ∀ x ∈ (start.moves fuel xs).2, x.1.settles = true) :
    let w := (start.moves fuel xs).1
    w.AtEase ∧
      (∃ courses : List (List Turn), List.Forall₂ Move.Opens xs courses ∧ start.ComesTo courses.flatten w ∧
        List.Sublist (handedIn courses.flatten ++ w.engine.pending)
          (start.engine.pending ++ joinedIn courses.flatten) ∧
        (w.engine.generation = start.engine.generation →
          handedIn courses.flatten ++ w.engine.pending = start.engine.pending ++ joinedIn courses.flatten)) ∧
      ∀ (count : Nat) (e : Event), (w.processEvent count e).2.settles = true → ∃ turns,
        w.ComesTo (.joined e false :: turns) (w.processEvent count e).1 ∧
          w.TakesUp e turns (w.processEvent count e) := by
  intro w
  obtain ⟨⟨courses, hcourses, hanswers⟩, hease⟩ := h.moves fuel xs hends
  obtain ⟨added, hflows, -⟩ := hanswers.flows
  refine ⟨hease, ⟨courses, hcourses, hanswers, hflows.line.sublist, hflows.inOrder⟩, fun count e hsettles => ?_⟩
  have hending := Ending.settles_iff.mp hsettles
  obtain ⟨turns, hrounds, hworks, hanswers⟩ := comesTo_event count hease.toQuiet e hending
  exact ⟨turns, hanswers, takesUp_processEvent hrounds hworks hending⟩

end

/-- A rule that rings the bell when something comes from the door, but not on the bell itself, one that watches the
lamp, and one that loads the rules anew when the bell rings. -/
def ringing : RuleSet :=
  let updated (target : String) : Expression := .device { target := .text target, kind := .receivesUpdate }
  { rules := [
      { name := .text "ring", triggers := [updated "door"], suppressors := [updated "bell"]
        actions := [.process (some ⟨.item, "bell"⟩, .update, .onOff .on, .absent, "ring")] },
      { name := .text "watch", triggers := [updated "lamp"] },
      { name := .text "renew", triggers := [updated "bell"], actions := [.reload none] }] }

def entrance : World :=
  { platform := {
      now := ⟨0, none⟩
      catalog := { items := ["door", "lamp", "bell"].map fun name => { name, accepts := [.onOff] } } } }

def entranceUpdate (name : String) : Event :=
  { ref := some ⟨.item, name⟩, kind := .update, new := .onOff .on, time := ⟨0, none⟩ }

/-- The lamp is switched on, the clock is set to another kind of time, and something comes from the door. The second
rule, which has fired before, breaks over this; that the bell rings is left waiting. -/
def entranceMoves : List Move :=
  [.load ringing none, .call (.event (entranceUpdate "lamp")),
    .call (.adjust { entrance.platform with now := ⟨0, some 0⟩ }), .call (.event (entranceUpdate "door"))]

theorem atEase_entrance : entrance.AtEase := ⟨⟨rfl, rfl, rfl⟩, by simp [RulesIdle, entrance]⟩

theorem moves_never_stick_entrance :
    let w := (entrance.moves 5 entranceMoves).1
    (∀ x ∈ (entrance.moves 5 entranceMoves).2, x.1.settles = true) ∧ w.engine.pending.length = 1 ∧ w.AtEase ∧
      ∀ e, (w.processEvent 5 e).2.settles = true → ∃ turns,
        w.ComesTo (.joined e false :: turns) (w.processEvent 5 e).1 ∧ w.TakesUp e turns (w.processEvent 5 e) := by
  intro w
  have hends : ∀ x ∈ (entrance.moves 5 entranceMoves).2, x.1.settles = true := by decide +kernel
  obtain ⟨hease, -, hnext⟩ := moves_never_stick 5 atEase_entrance entranceMoves hends
  exact ⟨hends, by decide +kernel, hease, hnext 5⟩

/-- The clock is set back, and something comes from the lamp. The rules are evaluated on the bell only, which makes
the third one load them anew; the call returns, but the event of the lamp is gone. -/
theorem event_lost_to_load :
    let moves := entranceMoves ++ [.call (.adjust entrance.platform)]
    let w := (entrance.moves 5 moves).1
    let out := w.processEvent 5 (entranceUpdate "lamp")
    entrance.AtEase ∧ (∀ x ∈ (entrance.moves 5 moves).2, x.1.settles = true) ∧ (∃ report, out.2 = .returned report) ∧
      out.1.engine.pending.length = 0 ∧ (endedIn out.1.trail).map (·.2.1.ref) =
        (endedIn w.trail).map (·.2.1.ref) ++ List.replicate 3 (some ⟨.item, "bell"⟩) := by
  exact ⟨atEase_entrance, by decide +kernel, Ending.exists_returned (by decide +kernel) (by decide +kernel),
    by decide +kernel, by decide +kernel⟩

end World
end Domotics
