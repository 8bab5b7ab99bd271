import Domotics.Proofs.Engine.Load
import Domotics.Proofs.Result
import Domotics.Proofs.Run.Afresh

/-!
What a world is after a load. Whatever it has gone through before, even calls that broke and left events
waiting, it behaves from then on as a world with a new engine that has loaded the same rules, over the same
platform and bus; only its history goes further back.
-/

namespace Domotics.World

/-- What is done to a world: it is called, rules are loaded, or the history is forgotten. -/
inductive Move where
  | call (c : Call)
  | load (rs : RuleSet) (now : Option Moment)
  | resetHistory

/-- Makes a move. Only the engine reports on a call. -/
def move (fuel : Nat) (w : World) : Move → World × Ending Report
  | .call (.event e) => w.processEvent fuel e
  | .call (.tick now) => w.tick fuel now
  | .call c => match w.perform fuel c with | (w, ending) => (w, ending.map fun _ => {})
  | .load rs now => match w.load rs now with | (w, r) => (w, .ofResult (r.map fun _ => {}))
  | .resetHistory => ({ w with engine := w.engine.resetHistory }, .returned {})

/-- What shows of a world: when it is to be called next, which rules are loaded, and the platform. -/
structure Sight where
  wakeup : Result (Option Moment)
  rules : List Document
  platform : Platform

def sight (w : World) : Sight := ⟨w.engine.nextWakeup, w.engine.ruleNames, w.platform⟩

def moves (fuel : Nat) : World → List Move → World × List (Ending Report × Sight)
  | w, [] => (w, [])
  | w, x :: rest =>
    let (w, ending) := w.move fuel x
    let (later, answers) := moves fuel w rest
    (later, (ending, w.sight) :: answers)

variable {past : Past} {w v : World} (fuel : Nat)

theorem move_call (w : World) (c : Call) : (w.move fuel (.call c)).1 = (w.perform fuel c).1 := by
  cases c <;> rfl

theorem Aged.journal (h : Aged past w v) : w.journal = past.journal.append v.journal := by
  cases h
  rfl

theorem Aged.sight (h : Aged past w v) : w.sight = v.sight := by
  cases h
  rfl

theorem perform_aged (h : Aged past w v) (c : Call) :
    AgedOut past (w.perform fuel c) (v.perform fuel c) := by
  cases c with
  | event e =>
    have hprocess := processEvent_aged fuel h e
    exact ⟨hprocess.worlds, congrArg (Ending.map _) hprocess.answers⟩
  | publish e => exact publishOnBus_aged fuel h e
  | update r x source => exact updateState_aged fuel h r x source
  | command r x source => exact sendCommand_aged fuel h r x source
  | tick now =>
    have htick := tick_aged fuel h now
    exact ⟨htick.worlds, congrArg (Ending.map _) htick.answers⟩
  | adjust p => exact ⟨h.onPlatform fun q => { p with attached := q.attached }, rfl⟩

theorem move_aged (h : Aged past w v) (x : Move) : AgedOut past (w.move fuel x) (v.move fuel x) := by
  have hperform (c : Call) (hc : ∀ w : World, w.move fuel (.call c) =
      ((w.perform fuel c).1, (w.perform fuel c).2.map fun _ => {})) :
      AgedOut past (w.move fuel (.call c)) (v.move fuel (.call c)) := by
    have hout := perform_aged fuel h c
    rw [hc, hc]
    exact ⟨hout.worlds, congrArg (Ending.map _) hout.answers⟩
  cases x with
  | call c =>
    cases c with
    | event e => exact processEvent_aged fuel h e
    | tick now => exact tick_aged fuel h now
    | publish e => exact hperform _ fun _ => rfl
    | update r x source => exact hperform _ fun _ => rfl
    | command r x source => exact hperform _ fun _ => rfl
    | adjust p => exact hperform _ fun _ => rfl
  | load rs now =>
    cases h with
    | intro fires v =>
      rw [move, load_aged]
      exact ⟨.intro fires (v.load rs now).1, rfl⟩
  | resetHistory =>
    cases h with
    | intro fires v => exact ⟨.intro ⟨[], []⟩ { v with engine := v.engine.resetHistory }, rfl⟩

/-- Every run goes the same way in a world with a past. -/
theorem moves_aged (h : Aged past w v) (xs : List Move) :
    AgedOut past (w.moves fuel xs) (v.moves fuel xs) := by
  induction xs generalizing w v with
  | nil => exact ⟨h, rfl⟩
  | cons x rest ih =>
    have hmove := move_aged fuel h x
    have hrest := ih hmove.worlds
    have hsight := hmove.worlds.sight
    refine ⟨hrest.worlds, ?_⟩
    simp only [moves, hmove.answers, hsight, hrest.answers]

theorem draining_load (rs : RuleSet) (now : Option Moment) :
    (w.load rs now).1.engine.draining = w.engine.draining := by
  rw [load, Engine.load]
  cases RuleBook.build rs (now.getD w.platform.now) w.platform.solar <;> rfl

/-- Between moves the engine is at work only if it was so before. -/
theorem draining_moves (xs : List Move) :
    (w.moves fuel xs).1.engine.draining = w.engine.draining := by
  induction xs generalizing w with
  | nil => rfl
  | cons x rest ih =>
    have hmove : (w.move fuel x).1.engine.draining = w.engine.draining := by
      cases x with
      | call c => rw [move_call, draining_perform]
      | load rs now => exact draining_load rs now
      | resetHistory => rfl
    exact (ih (w := (w.move fuel x).1)).trans hmove

/-- A world over the platform and the bus of another, with a new engine. -/
def renewed (w : World) : World := { platform := w.platform, bus := w.bus }

/-- A load leaves nothing of the time before it but the past. -/
theorem load_eq_aged {rs : RuleSet} {now : Option Moment} (hidle : w.engine.draining = false)
    (h : (w.load rs now).2 = .ok ()) : w.load rs now =
      ((w.renewed.load rs now).1.aged ⟨w.engine.generation, w.journal⟩
        ⟨w.engine.history, w.engine.fireCounts⟩, (w.renewed.load rs now).2) := by
  have hloaded : w.load rs now = ((w.load rs now).1, .ok ()) := Prod.ext rfl h
  obtain ⟨book, hbuild, hworld⟩ := build_of_load hloaded
  have hfresh := load_of_build (w := w.renewed) hbuild
  have hjournal : w.journal.append {} = w.journal := by simp [Journal.append]
  refine Prod.ext ?_ ?_
  · rw [hworld, hfresh, aged, Engine.aged, renewed, hjournal]
    simp only [hidle]
  · rw [h, hfresh]

/-- After a load every run goes as it goes with a new engine over the same platform and bus that loads the
same rules: all moves end in the same way with the same reports, the platform comes to the same states, the
same periodic events are planned, and the journal says the same about it. This holds whatever moves came
before. -/
theorem reload_forgets {start : World} (hidle : start.engine.draining = false) (earlier : List Move)
    {rs : RuleSet} {now : Option Moment}
    (hload : ((start.moves fuel earlier).1.load rs now).2 = .ok ()) (later : List Move) :
    let w := (start.moves fuel earlier).1
    let out := (w.load rs now).1.moves fuel later
    let fresh := (w.renewed.load rs now).1.moves fuel later
    (w.renewed.load rs now).2 = .ok () ∧ (w.load rs now).1.sight = (w.renewed.load rs now).1.sight ∧
      out.2 = fresh.2 ∧ out.1.journal = w.journal.append fresh.1.journal := by
  intro w out fresh
  have hdraining : w.engine.draining = false := (draining_moves fuel earlier).trans hidle
  have heq := load_eq_aged hdraining hload
  have haged : Aged ⟨w.engine.generation, w.journal⟩ (w.load rs now).1 (w.renewed.load rs now).1 := by
    rw [heq]
    exact .intro _ _
  have hrun := moves_aged fuel haged later
  have hjournal : out.1.journal = w.journal.append fresh.1.journal := hrun.worlds.journal
  refine ⟨?_, haged.sight, hrun.answers, hjournal⟩
  rw [heq] at hload
  exact hload

def relaying : RuleSet :=
  let door : Predicate := { target := .text "door", kind := .is, value := .openClosed .opened }
  let lamp : Predicate := { target := .text "lamp", kind := .is, value := .onOff .on }
  { rules := [
      { name := .text "relay", triggers := [.device door]
        actions := [.process (some ⟨.item, "lamp"⟩, .update, .onOff .on, .absent, "relay")] },
      { name := .text "watch", triggers := [.device lamp] }] }

def hallway : World :=
  { platform := {
      now := ⟨0, none⟩
      catalog := { items := [{ name := "door", accepts := [.openClosed] },
        { name := "lamp", accepts := [.onOff] }] }
      attached := true }
    bus := ({} : Bus Listener).subscribe {} .rules }

/-- The lamp is switched on, the clock is set to another kind of time, and the door opens. The second rule,
which has fired before, breaks over this; the event that the first one has handed on is left waiting. -/
def hallwayMoves : List Move :=
  let later : Moment := ⟨1000000, some 0⟩
  let opened : Event := { ref := some ⟨.item, "door"⟩, kind := .update, new := .openClosed .opened, time := later }
  [.load relaying none, .call (.update ⟨.item, "lamp"⟩ (.onOff .on) "user"),
    .call (.adjust { hallway.platform with now := later }), .call (.event opened)]

theorem reload_forgets_hallway :
    let w := (hallway.moves 5 hallwayMoves).1
    let later : List Move := [.call (.command ⟨.item, "lamp"⟩ (.onOff .off) "user"), .call (.tick none)]
    hallway.engine.draining = false ∧ w.engine.pending.length = 1 ∧ w.engine.history.length = 2 ∧
      (w.load relaying none).2 = .ok () ∧
      ((w.load relaying none).1.moves 5 later).2 = ((w.renewed.load relaying none).1.moves 5 later).2 := by
  intro w later
  have hload : (w.load relaying none).2 = .ok () := Result.ok_of_toOption (by decide +kernel)
  obtain ⟨-, -, hanswers, -⟩ := reload_forgets 5 rfl hallwayMoves hload later
  exact ⟨rfl, by decide +kernel, by decide +kernel, hload, hanswers⟩

end Domotics.World
