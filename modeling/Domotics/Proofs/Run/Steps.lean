import Domotics.Proofs.Run.Pass

/-!
What it means that a run goes to completion. A trail is cut into steps, and an evaluation is a pass of
a rule over an event of a device. The evaluations of a run are those that its publications make due, in
the order of publication and for each event in the order of the rules, and none comes before the step
in which its event is published has ended.
-/

namespace Domotics

/-- A step of a run: an event is published from outside, or a rule passes over an event. -/
inductive Step where
  | published (e : Event)
  | pass (p : Pass)

def Step.trail : Step → List Happening
  | published e => [.published e]
  | pass p => p.trail

def Step.trailOf (steps : List Step) : List Happening := steps.flatMap Step.trail

abbrev Evaluation := Document × Event

namespace Happening

def evaluated? : Happening → Option Evaluation
  | passed o => if o.event.ofDevice then some (o.rule, o.event) else none
  | _ => none

def evaluatedIn (trail : List Happening) : List Evaluation := trail.filterMap evaluated?

def devicesIn (trail : List Happening) : List Event := (publishedIn trail).filter (·.ofDevice)

@[simp] theorem evaluatedIn_append (t u : List Happening) :
    evaluatedIn (t ++ u) = evaluatedIn t ++ evaluatedIn u := List.filterMap_append

@[simp] theorem devicesIn_append (t u : List Happening) :
    devicesIn (t ++ u) = devicesIn t ++ devicesIn u := by
  rw [devicesIn, publishedIn_append, List.filter_append, devicesIn, devicesIn]

theorem evaluatedIn_pass {rule : Document} {e : Event} {inner : List Happening} (last : Happening)
    (h : ∀ x ∈ inner, x.isInner = true) :
    evaluatedIn (.began rule e :: inner ++ [last]) = last.evaluated?.toList :=
  filterMap_pass (fun x hx => by cases x <;> simp_all [endsPass, evaluated?]) last h

end Happening

open Happening

/-- The evaluations that some events make due: each event at all rules in order. -/
def dueOf (rules : List Rule) (events : List Event) : List Evaluation :=
  events.flatMap fun e => rules.map fun r => (r.name, e)

@[simp] theorem dueOf_nil (rules : List Rule) : dueOf rules [] = [] := rfl

@[simp] theorem dueOf_append (rules : List Rule) (events later : List Event) :
    dueOf rules (events ++ later) = dueOf rules events ++ dueOf rules later := List.flatMap_append

/-- A run in which every event of a device is evaluated by all rules, one event after the other. -/
structure RunsToCompletion (rules : List Rule) (steps : List Step) : Prop where
  /-- Each pass is one of a loaded rule. Nothing happens in it but the actions of a rule that fires, all
  of them and in order, and what they publish. -/
  whole : ∀ p, .pass p ∈ steps → p.rule ∈ rules ∧ p.Whole
  /-- Every event is evaluated by every rule once, in the order of publication and of the rules. -/
  complete : evaluatedIn (Step.trailOf steps) = dueOf rules (devicesIn (Step.trailOf steps))
  /-- A pass only evaluates an event that was published in an earlier step. -/
  inTurn : ∀ done next later, steps = done ++ next :: later →
    evaluatedIn (Step.trailOf (done ++ [next])) <+: dueOf rules (devicesIn (Step.trailOf done))

/-- A step makes the first of the evaluations that are due, or none, and puts those that it makes due
behind the others. -/
structure Advances (rules : List Rule) (due : List Evaluation) (step : Step)
    (due' : List Evaluation) : Prop where
  whole : ∀ p, step = .pass p → p.rule ∈ rules ∧ p.Whole
  inTurn : evaluatedIn step.trail <+: due
  rest : evaluatedIn step.trail ++ due' = due ++ dueOf rules (devicesIn step.trail)

inductive Follows (rules : List Rule) : List Evaluation → List Step → List Evaluation → Prop where
  | nil (due : List Evaluation) : Follows rules due [] due
  | cons {due mid due' : List Evaluation} {step : Step} {steps : List Step}
      (first : Advances rules due step mid) (later : Follows rules mid steps due') :
      Follows rules due (step :: steps) due'

namespace Follows

variable {rules : List Rule} {due mid due' : List Evaluation} {steps later : List Step}

theorem single {step : Step} (h : Advances rules due step due') : Follows rules due [step] due' :=
  .cons h (.nil due')

theorem append (h₁ : Follows rules due steps mid) (h₂ : Follows rules mid later due') :
    Follows rules due (steps ++ later) due' := by
  induction h₁ with
  | nil => exact h₂
  | cons first _ ih => exact .cons first (ih h₂)

theorem whole (h : Follows rules due steps due') : ∀ p, .pass p ∈ steps → p.rule ∈ rules ∧ p.Whole := by
  induction h with
  | nil => simp
  | cons first _ ih =>
    intro p hp
    rcases List.mem_cons.mp hp with heq | hp
    · exact first.whole p heq.symm
    · exact ih p hp

/-- Nothing that is due is lost. -/
theorem balance (h : Follows rules due steps due') :
    evaluatedIn (Step.trailOf steps) ++ due' = due ++ dueOf rules (devicesIn (Step.trailOf steps)) := by
  induction h with
  | nil => simp [Step.trailOf, evaluatedIn, devicesIn, publishedIn]
  | @cons due mid due' step steps first _ ih =>
    have htrail : Step.trailOf (step :: steps) = step.trail ++ Step.trailOf steps := List.flatMap_cons
    calc evaluatedIn (Step.trailOf (step :: steps)) ++ due'
        = evaluatedIn step.trail ++ (evaluatedIn (Step.trailOf steps) ++ due') := by
          rw [htrail, evaluatedIn_append, List.append_assoc]
      _ = (evaluatedIn step.trail ++ mid) ++ dueOf rules (devicesIn (Step.trailOf steps)) := by
          rw [ih, List.append_assoc]
      _ = due ++ dueOf rules (devicesIn (Step.trailOf (step :: steps))) := by
          rw [first.rest, htrail, devicesIn_append, dueOf_append, List.append_assoc]

/-- What is evaluated up to a step was due before it. -/
theorem inTurn (h : Follows rules due steps due') : ∀ done next later, steps = done ++ next :: later →
    evaluatedIn (Step.trailOf (done ++ [next])) <+:
      due ++ dueOf rules (devicesIn (Step.trailOf done)) := by
  induction h with
  | nil => simp
  | @cons due mid due' step steps first _ ih =>
    intro done next later heq
    cases done with
    | nil =>
      obtain ⟨rfl, _⟩ := List.cons.inj heq
      have hnil : Step.trailOf [] = [] := rfl
      have hone : Step.trailOf ([] ++ [step]) = step.trail := by simp [Step.trailOf]
      rw [hone, hnil]
      exact first.inTurn.trans (List.prefix_append ..)
    | cons other done =>
      obtain ⟨rfl, hsteps⟩ := List.cons.inj heq
      have htrail (tail : List Step) : Step.trailOf (step :: tail) = step.trail ++ Step.trailOf tail :=
        List.flatMap_cons
      rw [List.cons_append, htrail, htrail, evaluatedIn_append, devicesIn_append, dueOf_append,
        ← List.append_assoc, ← first.rest, List.append_assoc]
      exact List.prefix_append_right_inj _ |>.mpr (ih done next later hsteps)

theorem runsToCompletion (h : Follows rules [] steps []) : RunsToCompletion rules steps where
  whole := h.whole
  complete := by simpa using h.balance
  inTurn done next later heq := by simpa using h.inTurn done next later heq

end Follows
end Domotics
