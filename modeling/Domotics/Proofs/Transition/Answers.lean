import Domotics.Proofs.Run.Cooldown
import Domotics.Proofs.Run.Steps

/-!
What a rule that waits for a transition of a device should make of the updates of the device, and what it
makes of them with what it remembers. A rule remembers the last value that it has seen and looks at it
when an update does not carry the value before it; the platform knows the value before each update. As
long as one update takes up where the one before it has left, both come to the same answers.
-/

namespace Domotics

instance (d : Duration) (t u : Moment) : Decidable (Moment.AtLeast d t u) :=
  decidable_of_iff _ Moment.atLeast_iff.symm

def Event.updates (e : Event) (d : Reference) : Bool := e.ref = some d && e.changesState

/-- Updates of a device that lead from one of its states to another. -/
inductive Event.Chain : Value → List Event → Value → Prop where
  | nil (state : Value) : Chain state [] state
  | cons {e : Event} {rest : List Event} {state : Value} (later : Chain e.new rest state) :
      Chain e.old (e :: rest) state

theorem Event.Chain.trans {a b c : Value} {es fs : List Event} (h₁ : Chain a es b)
    (h₂ : Chain b fs c) : Chain a (es ++ fs) c := by
  induction h₁ with
  | nil => exact h₂
  | cons _ ih => exact .cons (ih h₂)

namespace Happening

def updatesOf (d : Reference) (trail : List Happening) : List Event :=
  (publishedIn trail).filter (·.updates d)

def outcomeOf? (name : Document) : Happening → Option Outcome
  | passed o => if o.rule.agrees name then some o else none
  | _ => none

def outcomesOf (name : Document) (trail : List Happening) : List Outcome :=
  trail.filterMap (outcomeOf? name)

def answersOf (name : Document) (d : Reference) (trail : List Happening) : List Outcome :=
  (outcomesOf name trail).filter (·.event.updates d)

variable (name : Document) (d : Reference) (t u : List Happening)

@[simp] theorem updatesOf_append : updatesOf d (t ++ u) = updatesOf d t ++ updatesOf d u := by
  simp [updatesOf]

@[simp] theorem outcomesOf_append :
    outcomesOf name (t ++ u) = outcomesOf name t ++ outcomesOf name u := List.filterMap_append

@[simp] theorem answersOf_append :
    answersOf name d (t ++ u) = answersOf name d t ++ answersOf name d u := by
  simp [answersOf]

theorem outcomesOf_map_published (events : List Event) :
    outcomesOf name (events.map .published) = [] := by
  induction events with
  | nil => rfl
  | cons e rest ih => exact ih

variable {name} in
theorem outcomesOf_pass {rule : Document} {e : Event} {inner : List Happening}
    (last : Happening) (h : ∀ x ∈ inner, x.isInner = true) :
    outcomesOf name (.began rule e :: inner ++ [last]) = (last.outcomeOf? name).toList :=
  filterMap_pass (fun x hx => by cases x <;> simp_all [endsPass, outcomeOf?]) last h

end Happening

namespace Predicate

def isTransition (p : Predicate) (before after : Value) : Bool :=
  match p.kind with
  | .goes => after.equals p.value && !before.equals p.value
  | .goesFrom => before.equals p.origin && after.equals p.value
  | _ => false

/-- The answers that a rule with a cooldown owes to updates of a device: it fires on the transitions that
come when it has rested. `before` is the state before the first update, and `last` the time of the last
fire. -/
def answers (p : Predicate) (cooldown : Duration) :
    Value → Option Moment → List Event → List (Event × Bool)
  | _, _, [] => []
  | before, last, e :: rest =>
    let fires := p.isTransition before e.new &&
      decide (∀ t ∈ last, Moment.AtLeast cooldown t e.time)
    (e, fires) :: answers p cooldown e.new (if fires then some e.time else last) rest

end Predicate

/-- What a rule remembers: the last value that it has seen of the device, and the time of its last fire. -/
structure Memory where
  seen : Option Value
  last : Option Moment

namespace Memory

variable (p : Predicate) (cooldown : Duration)

def before (mem : Memory) (e : Event) : Value :=
  if e.old.isPresent then e.old else mem.seen.getD .absent

def fires (mem : Memory) (o : Outcome) : Bool :=
  p.isTransition (mem.before o.event) o.event.new &&
    decide (∀ t ∈ mem.last, Moment.AtLeast cooldown t o.time)

def after (mem : Memory) (o : Outcome) : Memory :=
  ⟨some o.event.new, if o.fired then some o.time else mem.last⟩

inductive Replays : Memory → List Outcome → Memory → Prop where
  | nil (mem : Memory) : Replays mem [] mem
  | cons {mem mem' : Memory} {o : Outcome} {rest : List Outcome}
      (hfires : o.fired = mem.fires p cooldown o) (later : Replays (mem.after o) rest mem') :
      Replays mem (o :: rest) mem'

variable {p cooldown} {mem mem' mem'' : Memory} {os qs : List Outcome}

theorem Replays.trans (h₁ : Replays p cooldown mem os mem') (h₂ : Replays p cooldown mem' qs mem'') :
    Replays p cooldown mem (os ++ qs) mem'' := by
  induction h₁ with
  | nil => exact h₂
  | cons hfires _ ih => exact .cons hfires (ih h₂)

/-- The passes determine what the rule remembers after them. -/
theorem Replays.unique (h₁ : Replays p cooldown mem os mem') (h₂ : Replays p cooldown mem os mem'') :
    mem' = mem'' := by
  induction h₁ with
  | nil =>
    cases h₂
    rfl
  | cons _ _ ih =>
    cases h₂ with
    | cons _ later => exact ih later

theorem before_eq_old {e : Event} (h : ∀ v ∈ mem.seen, v = e.old) : mem.before e = e.old := by
  rw [before]
  split
  · rfl
  · rename_i habsent
    have hold : e.old = .absent := by
      unfold Value.isPresent at habsent
      split at habsent
      · assumption
      · exact absurd rfl habsent
    cases hseen : mem.seen with
    | none => exact hold.symm
    | some v => exact h v hseen

/-- Passes at the times of their updates, each of which takes up where the one before it has left, are the
answers that the rule owes. -/
theorem Replays.answers {before state : Value} (h : Replays p cooldown mem os mem')
    (hseen : ∀ v ∈ mem.seen, v = before) (hchain : Event.Chain before (os.map (·.event)) state)
    (htime : ∀ o ∈ os, o.time = o.event.time) :
    os.map (fun o => (o.event, o.fired)) =
      p.answers cooldown before mem.last (os.map (·.event)) := by
  induction h generalizing before with
  | nil => rfl
  | @cons mem mem' o rest hfires _ ih =>
    obtain ⟨hnow, hlater⟩ := List.forall_mem_cons.mp htime
    rw [List.map_cons] at hchain
    cases hchain with
    | cons hchain =>
      have hsame : o.fired = (p.isTransition o.event.old o.event.new &&
          decide (∀ t ∈ mem.last, Moment.AtLeast cooldown t o.event.time)) := by
        rw [hfires, fires, before_eq_old hseen, hnow]
      have hrest := ih (by simp [after]) hchain hlater
      rw [List.map_cons, List.map_cons, hrest, Predicate.answers, ← hsame, after, hnow]

end Memory
end Domotics
