import Domotics.Proofs.Run.Still

/-!
Turns of rules. In worlds that look the same to them, rules take a turn in the same way, whether they have
brought their own aliases or find them bound; and every round of an engine gives its rules such turns, one
after the other, up to the first that breaks.
-/

namespace Domotics

/-- The rule without its aliases, for use where these are bound already. -/
def Rule.bare (r : Rule) : Rule := { r with aliases := [] }

namespace Machine

def bare (m : Machine) : Machine := { m with rule := m.rule.bare }

/-- What a pass leaves of a rule that keeps still, and how the pass ends. The world has a part in this through
the verdict and the course of the sun alone. -/
def concluded (m : Machine) (solar : SolarCalendar) (e : Event) (now : Moment) :
    Result Judgement → Machine × Result Outcome
  | .error fault => ({ m.noting e with phase := .idle }, .error fault)
  | .ok j =>
    let outcome : Outcome := ⟨m.rule.name, now, e, j⟩
    if j.state = .firing then
      let (retrigger, planned) := m.retrigger.recordFired now solar
      ({ m.noting e with retrigger, phase := .idle }, planned.map fun _ => outcome)
    else ({ m.noting e with phase := .idle }, .ok outcome)

theorem concluded_bare (m : Machine) (solar : SolarCalendar) (e : Event) (now : Moment)
    (verdict : Result Judgement) : m.bare.concluded solar e now verdict =
      ((m.concluded solar e now verdict).1.bare, (m.concluded solar e now verdict).2) := by
  cases verdict with
  | error fault => rfl
  | ok j =>
    simp only [concluded]
    split <;> rfl

section

variable {m : Machine} {aliases : AliasRegistry} {w v : World} {e : Event} {now : Moment}

theorem verdict_bare (hseen : w.platform.seen = v.platform.seen) :
    m.bare.verdict aliases v e now = m.verdict aliases w e now := by
  have hsurroundings : v.surroundings aliases = w.surroundings aliases := by
    change ({ aliases, catalog := v.platform.seen.catalog, states := v.platform.seen.states
              solar := v.platform.seen.solar } : Surroundings) = _
    rw [← hseen]
    rfl
  rw [verdict, hsurroundings]
  rfl

theorem handle_eq_concluded (h : Action.allKeepStill m.rule.actions = true) :
    (m.handle aliases w e now).machine =
        (m.concluded w.platform.solar e now (m.verdict aliases w e now)).1 ∧
      (m.handle aliases w e now).result =
        (m.concluded w.platform.solar e now (m.verdict aliases w e now)).2 := by
  have hafter := still_afterActions h aliases (w.mark (.began m.rule.name e)) e now
  have hsolar := Platform.solar_of_seen hafter.platform
  have hhandled := m.handled_handle aliases w e now
  generalize m.handle aliases w e now = pass at hhandled ⊢
  cases hhandled with
  | broke hverdict =>
    rw [hverdict]
    exact ⟨rfl, rfl⟩
  | rested hverdict hrests =>
    rw [hverdict, concluded]
    simp [hrests]
  | fired record hverdict hfires heq hrecord =>
    subst heq
    rw [hsolar, World.mark_platform] at hrecord
    rw [hverdict, concluded]
    simp [hfires, hrecord, Except.map]
  | unplanned hverdict hfires heq hrecord =>
    subst heq
    rw [hsolar, World.mark_platform] at hrecord
    rw [hverdict, concluded]
    simp [hfires, hrecord, Except.map]

end

/-- A turn that rules may be given, of a kind that rules in worlds which look the same take in the same way,
whether they are alone or not. -/
structure Fair {α : Type} (turn : Machine → World → PassResult α) (outs : α → List Outcome) :
    Prop where
  went : ∀ {m : Machine} (w : World), Action.allKeepStill m.rule.actions = true →
    Went m w outs (turn m w)
  machine : ∀ {m : Machine} {w v : World}, Action.allKeepStill m.rule.actions = true →
    w.platform.seen = v.platform.seen → (turn m.bare v).machine = (turn m w).machine.bare
  result : ∀ {m : Machine} {w v : World}, Action.allKeepStill m.rule.actions = true →
    w.platform.seen = v.platform.seen → (turn m.bare v).result = (turn m w).result

variable (aliases : AliasRegistry) (e : Event) (now : Moment)

theorem fair_handle : Fair (fun m w => m.handle aliases w e now) fun o => [o] where
  went w h := went_handle h aliases w e now
  machine {m w v} h hseen := by
    rw [(handle_eq_concluded h).1, (handle_eq_concluded (m := m.bare) h).1, verdict_bare hseen,
      ← Platform.solar_of_seen hseen, concluded_bare]
  result {m w v} h hseen := by
    rw [(handle_eq_concluded h).2, (handle_eq_concluded (m := m.bare) h).2, verdict_bare hseen,
      ← Platform.solar_of_seen hseen, concluded_bare]

theorem handleTick_bare {m : Machine} {w v : World} (h : Action.allKeepStill m.rule.actions = true)
    (hseen : w.platform.seen = v.platform.seen) :
    (m.bare.handleTick aliases v now).machine = (m.handleTick aliases w now).machine.bare ∧
      (m.bare.handleTick aliases v now).result = (m.handleTick aliases w now).result := by
  have hmachine := (fair_handle aliases (.tick now) now).machine h hseen
  have hresult := (fair_handle aliases (.tick now) now).result h hseen
  have hsolar := Platform.solar_of_seen hseen
  have hretrigger : m.bare.retrigger = m.retrigger := rfl
  rw [handleTick, handleTick, hretrigger, ← hsolar]
  cases m.retrigger.due now with
  | error fault => exact ⟨rfl, rfl⟩
  | ok due =>
    cases due with
    | false => exact ⟨rfl, rfl⟩
    | true =>
      dsimp only at hmachine hresult ⊢
      generalize m.handle aliases w (.tick now) now = pass at hmachine hresult ⊢
      generalize m.bare.handle aliases v (.tick now) now = pass' at hmachine hresult ⊢
      have hretrigger' : pass'.machine.retrigger = pass.machine.retrigger := by rw [hmachine]; rfl
      rw [hresult, hretrigger', hmachine]
      cases pass.result with
      | error fault => exact ⟨rfl, rfl⟩
      | ok o =>
        dsimp only
        split
        · exact ⟨rfl, rfl⟩
        · split <;> exact ⟨rfl, rfl⟩

theorem fair_handleTick : Fair (fun m w => m.handleTick aliases w now) Option.toList where
  went w h := went_handleTick h aliases w now
  machine h hseen := (handleTick_bare aliases now h hseen).1
  result h hseen := (handleTick_bare aliases now h hseen).2

end Machine

namespace World

open Happening Machine

/-- Gives some rules their turns, from the `index`-th on, up to the first that breaks. -/
def sweep {α : Type} (turn : Machine → World → PassResult α) (generation : Nat) :
    Nat → List Machine → World → World × Result Unit
  | _, [], w => (w, .ok ())
  | index, m :: rest, w =>
    let pass := turn m w
    let w := pass.world.storeMachine generation index pass.machine
    match pass.result with
    | .ok _ => sweep turn generation (index + 1) rest w
    | .error fault => (w, .error fault)

theorem passAll_eq_sweep (round : Round) (e : Event) (index : Nat) (machines : List Machine) (w : World)
    (report : Report) :
    ((passAll round e index machines w report).1,
        (passAll round e index machines w report).2.map fun _ => ()) =
      sweep (fun m w => m.handle round.aliases w e round.now) round.generation index machines w := by
  induction machines generalizing index w report with
  | nil => rfl
  | cons m rest ih =>
    rw [passAll, sweep]
    split
    all_goals rename_i hresult
    all_goals simp only [hresult]
    · exact ih ..
    · rfl

theorem processOne_eq_sweep (w : World) (e : Event) :
    ((w.processOne e).1, (w.processOne e).2.map fun _ => ()) =
      sweep (fun m v => m.handle w.engine.book.aliases v e w.platform.now) w.engine.generation 0
        w.engine.book.machines w := passAll_eq_sweep ..

theorem tickAll_eq_sweep (round : Round) (index : Nat) (machines : List Machine) (w : World)
    (report : Report) :
    ((tickAll round index machines w report).1,
        (tickAll round index machines w report).2.map fun _ => ()) =
      sweep (fun m w => m.handleTick round.aliases w round.now) round.generation index machines w := by
  induction machines generalizing index w report with
  | nil => rfl
  | cons m rest ih =>
    rw [tickAll, sweep]
    split
    all_goals rename_i hresult
    all_goals simp only [hresult]
    · exact ih ..
    · exact ih ..
    · rfl

section

variable {α : Type} {turn : Machine → World → PassResult α} {generation index : Nat} {m : Machine}
  {rest : List Machine} {w : World}

theorem sweep_cons_of_ok {a : α} (h : (turn m w).result = .ok a) :
    sweep turn generation index (m :: rest) w = sweep turn generation (index + 1) rest
      ((turn m w).world.storeMachine generation index (turn m w).machine) := by
  simp only [sweep, h]

theorem sweep_cons_of_error {fault : Fault} (h : (turn m w).result = .error fault) :
    sweep turn generation index (m :: rest) w =
      ((turn m w).world.storeMachine generation index (turn m w).machine, .error fault) := by
  simp only [sweep, h]

theorem sweep_cons_keeps {P : World → Prop}
    (hfirst : P ((turn m w).world.storeMachine generation index (turn m w).machine))
    (hrest : ∀ {w : World}, P w → P (sweep turn generation (index + 1) rest w).1) :
    P (sweep turn generation index (m :: rest) w).1 := by
  cases hresult : (turn m w).result with
  | ok a =>
    rw [sweep_cons_of_ok hresult]
    exact hrest hfirst
  | error fault =>
    rw [sweep_cons_of_error hresult]
    exact hfirst

end

theorem sweep_append {α : Type} (turn : Machine → World → PassResult α) (generation index : Nat)
    (machines later : List Machine) (w : World) : sweep turn generation index (machines ++ later) w =
      match sweep turn generation index machines w with
      | (w, .ok ()) => sweep turn generation (index + machines.length) later w
      | (w, .error fault) => (w, .error fault) := by
  induction machines generalizing index w with
  | nil => rfl
  | cons m rest ih =>
    rw [List.cons_append, sweep, sweep, List.length_cons, ← Nat.add_assoc, Nat.add_right_comm]
    cases (turn m w).result with
    | ok a => exact ih ..
    | error fault => rfl

variable {α : Type} {turn : Machine → World → PassResult α} {outs : α → List Outcome} {b g index : Nat}
  {w : World} {machines : List Machine}

theorem lost_sweep (hfair : Fair turn outs)
    (hstill : ∀ x ∈ machines, Action.allKeepStill x.rule.actions = true) (hlost : Lost b g w) :
    Lost b g (sweep turn g index machines w).1 := by
  induction machines generalizing index w with
  | nil => exact hlost
  | cons x rest ih =>
    obtain ⟨hx, hrest⟩ := List.forall_mem_cons.mp hstill
    exact sweep_cons_keeps (((hfair.went w hx).lost hlost).storeMachine ..) (ih hrest)

end World
end Domotics
