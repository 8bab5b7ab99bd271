import Domotics.Proofs.Run.Pass

/-!
A round of the rules: each rule in turn passes over an event and is put back in its place, unless other
rules have been loaded meanwhile.
-/

namespace Domotics.World

/-- Rules that a round has yet to go through, from the `index`-th on, unless others have been loaded. -/
def Ahead (w : World) (generation index : Nat) (machines : List Machine) : Prop :=
  w.engine.generation = generation → w.engine.book.machines.drop index = machines

section

variable {plain : Prop} {generation index : Nat} {added : List Happening} {w w' : World}
  {m : Machine} {rest : List Machine}

@[simp] theorem storeMachine_generation (w : World) (generation index : Nat) (m : Machine) :
    (w.storeMachine generation index m).engine.generation = w.engine.generation := by
  unfold storeMachine Engine.store
  dsimp only
  split <;> rfl

@[simp] theorem storeMachine_trail (w : World) (generation index : Nat) (m : Machine) :
    (w.storeMachine generation index m).trail = w.trail := rfl

theorem storeMachine_pending (w : World) (generation index : Nat) (m : Machine) :
    (w.storeMachine generation index m).engine.pending = w.engine.pending := by
  unfold storeMachine Engine.store
  dsimp only
  split <;> rfl

@[simp] theorem storeMachine_waiting (w : World) (generation index : Nat) (m : Machine) :
    (w.storeMachine generation index m).waiting = w.waiting := by
  unfold storeMachine Engine.store waiting
  dsimp only
  split <;> rfl

theorem storeMachine_of_generation {w : World} {generation : Nat} (index : Nat) (m : Machine)
    (h : w.engine.generation = generation) : w.storeMachine generation index m =
      { w with engine := { w.engine with book := { w.engine.book with
        machines := w.engine.book.machines.set index m } } } := by
  simp [storeMachine, Engine.store, h]

theorem storeMachine_machines {w : World} (m : Machine) (h : w.engine.generation = generation) :
    (w.storeMachine generation index m).engine.book.machines =
      w.engine.book.machines.set index m := by
  simp [storeMachine, Engine.store, h]

theorem forall_mem_storeMachine {P : Machine → Prop} (h : ∀ x ∈ w.engine.book.machines, P x) (hm : P m)
    (generation index : Nat) :
    ∀ x ∈ (w.storeMachine generation index m).engine.book.machines, P x := by
  rw [storeMachine, Engine.store]
  split
  · intro x hx
    rcases List.mem_or_eq_of_mem_set hx with hx | rfl
    · exact h x hx
    · exact hm
  · exact h

theorem Ahead.store (h : w.Ahead generation index (m :: rest))
    (hle : generation ≤ w.engine.generation) (hacts : w.Acts plain w' added) (m' : Machine) :
    (w'.storeMachine generation index m').Ahead generation (index + 1) rest := by
  intro hgeneration
  rw [storeMachine_generation] at hgeneration
  have hmono := hacts.generation
  have hsame : w.engine.generation = generation := by omega
  rw [storeMachine_machines m' hgeneration, hacts.book (by omega), List.drop_set_of_lt (by omega),
    ← List.tail_drop, h hsame, List.tail_cons]

theorem Ahead.getElem?_eq (h : w.Ahead generation index (m :: rest))
    (hgeneration : w.engine.generation = generation) : w.engine.book.machines[index]? = some m := by
  rw [← List.head?_drop, h hgeneration, List.head?_cons]

theorem Ahead.map_store {α : Type} (f : Machine → α) {m' : Machine}
    (h : w.Ahead generation index (m :: rest)) (hgeneration : w.engine.generation = generation)
    (hacts : w.Acts plain w' added) (hsame : w'.engine.generation = w.engine.generation)
    (hm' : f m' = f m) : (w'.storeMachine generation index m').engine.book.machines.map f =
      w.engine.book.machines.map f := by
  obtain ⟨hlt, rfl⟩ := List.getElem?_eq_some_iff.mp (h.getElem?_eq hgeneration)
  rw [storeMachine_machines m' (by omega), hacts.book hsame, List.map_set, hm']
  exact List.ext_getElem (by simp) fun i _ _ => by
    by_cases hi : index = i <;> simp [hi]

/-- What every turn of a rule keeps, a round over an event keeps. -/
theorem passAll_keeps {P : World → Prop} {round : Round} {e : Event} {machines : List Machine}
    {report : Report}
    (hturn : ∀ {w : World} {index : Nat} {m : Machine} {rest : List Machine}, m ∈ machines → P w →
      round.generation ≤ w.engine.generation → w.Ahead round.generation index (m :: rest) →
      P ((m.handle round.aliases w e round.now).world.storeMachine round.generation index
        (m.handle round.aliases w e round.now).machine))
    (h : P w) (hle : round.generation ≤ w.engine.generation)
    (hahead : w.Ahead round.generation index machines) :
    P (passAll round e index machines w report).1 := by
  induction machines generalizing index w report with
  | nil => exact h
  | cons m rest ih =>
    obtain ⟨inner, hacts, -⟩ := m.acts_handle round.aliases w e round.now
    have hstored := hturn (List.mem_cons_self ..) h hle hahead
    have hnext := hahead.store hle hacts (m.handle round.aliases w e round.now).machine
    have hmono := hacts.generation
    rw [passAll]
    split
    · exact ih (fun hm => hturn (List.mem_cons_of_mem _ hm)) hstored
        (by rw [storeMachine_generation]; omega) hnext
    · exact hstored

theorem tickAll_keeps {P : World → Prop} {round : Round} {machines : List Machine} {report : Report}
    (hturn : ∀ {w : World} {index : Nat} {m : Machine} {rest : List Machine}, m ∈ machines → P w →
      round.generation ≤ w.engine.generation → w.Ahead round.generation index (m :: rest) →
      P ((m.handleTick round.aliases w round.now).world.storeMachine round.generation index
        (m.handleTick round.aliases w round.now).machine))
    (h : P w) (hle : round.generation ≤ w.engine.generation)
    (hahead : w.Ahead round.generation index machines) :
    P (tickAll round index machines w report).1 := by
  induction machines generalizing index w report with
  | nil => exact h
  | cons m rest ih =>
    obtain ⟨added, hacts⟩ := m.acts_handleTick round.aliases w round.now
    have hstored := hturn (List.mem_cons_self ..) h hle hahead
    have hnext := hahead.store hle hacts (m.handleTick round.aliases w round.now).machine
    have hmono := hacts.generation
    have hlater : round.generation ≤ ((m.handleTick round.aliases w round.now).world.storeMachine
        round.generation index
        (m.handleTick round.aliases w round.now).machine).engine.generation := by
      rw [storeMachine_generation]
      omega
    rw [tickAll]
    split
    · exact ih (fun hm => hturn (List.mem_cons_of_mem _ hm)) hstored hlater hnext
    · exact ih (fun hm => hturn (List.mem_cons_of_mem _ hm)) hstored hlater hnext
    · exact hstored

end

end Domotics.World
