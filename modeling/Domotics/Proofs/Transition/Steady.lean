import Domotics.Proofs.Run.Deed
import Domotics.Proofs.Transition.Answers

/-!
What a call from outside leaves alone while the rules keep to the bus: the clock, the catalog, the aliases
and the generation of the rules. All that is published in it bears the time of the clock, and each update of
a device takes up where the one before it has left.
-/

namespace Domotics

theorem Event.ofDevice_of_updates {e : Event} {d : Reference} (h : e.updates d = true) :
    e.ofDevice = true := by
  cases hkind : e.kind <;> simp_all [updates, changesState, ofDevice]

namespace Platform

variable (p : Platform) (r d : Reference) (v : Value) (source : String)

theorem updates_update : (p.update r v source).2.updates d = decide (r = d) := by
  have hkind : updateKind r v = .update ∨ updateKind r v = .statusChange := by
    cases r with
    | mk kind name => cases kind <;> cases v <;> simp [updateKind]
  rcases hkind with hkind | hkind <;> simp [update, Event.updates, Event.changesState, hkind]

theorem chain_update : Event.Chain (p.stateOf d) ([(p.update r v source).2].filter (·.updates d))
    ((p.update r v source).1.stateOf d) := by
  by_cases h : r = d
  · subst h
    have hnew : (p.update r v source).1.stateOf r = (p.update r v source).2.new :=
      p.update_fst_stateOf r v source
    have hold : (p.update r v source).2.old = p.stateOf r := rfl
    rw [List.filter_singleton, updates_update, decide_eq_true rfl, hnew, ← hold]
    exact .cons (.nil _)
  · have hsame : (p.update r v source).1.stateOf d = p.stateOf d := by
      simp [update, stateOf, setState, StateTable.get?_set, h]
    rw [List.filter_singleton, updates_update, decide_eq_false h, hsame]
    exact .nil _

theorem chain_command : Event.Chain (p.stateOf d) ([(p.command r v source).2].filter (·.updates d))
    ((p.command r v source).1.stateOf d) := by
  have hnot : (p.command r v source).2.updates d = false := by
    simp [command, Event.updates, Event.changesState]
  rw [List.filter_singleton, hnot]
  exact .nil _

end Platform

namespace World

open Happening

structure Steady (d : Reference) (start w : World) : Prop where
  attached : w.platform.attached = true
  clock : w.platform.now = start.platform.now
  catalog : w.platform.catalog = start.platform.catalog
  aliases : w.engine.book.aliases = start.engine.book.aliases
  generation : w.engine.generation = start.engine.generation
  timely : ∃ later, w.trail = start.trail ++ later ∧
    (∀ e ∈ publishedIn later, e.time = start.platform.now) ∧
    Event.Chain (start.platform.stateOf d) (updatesOf d later) (w.platform.stateOf d)

variable {d : Reference} {start w : World}

theorem Steady.refl (h : start.platform.attached = true) : Steady d start start :=
  ⟨h, rfl, rfl, rfl, rfl, [], by simp, by simp [publishedIn], .nil _⟩

theorem Steady.noted (h : Steady d start w) {p : Platform} {e : Event}
    (hattached : p.attached = w.platform.attached) (hclock : p.now = w.platform.now)
    (hcatalog : p.catalog = w.platform.catalog) (htime : e.time = w.platform.now)
    (hchain : Event.Chain (w.platform.stateOf d) ([e].filter (·.updates d)) (p.stateOf d)) :
    Steady d start (w.noted (p, e)) := by
  obtain ⟨later, htrail, htimes, hchained⟩ := h.timely
  rw [World.noted, if_pos h.attached]
  refine ⟨hattached.trans h.attached, hclock.trans h.clock, hcatalog.trans h.catalog, h.aliases,
    h.generation, later ++ [.published e], ?_, ?_, ?_⟩
  · rw [mark_trail, ← List.append_assoc, ← htrail]
    rfl
  · rw [publishedIn_append]
    intro x hx
    rcases List.mem_append.mp hx with hx | hx
    · exact htimes x hx
    · cases List.mem_singleton.mp hx
      exact htime.trans h.clock
  · rw [updatesOf_append]
    exact hchained.trans hchain

theorem Steady.mark (h : Steady d start w) {x : Happening} (hx : x.published? = none) :
    Steady d start (w.mark x) := by
  obtain ⟨later, htrail, htimes, hchained⟩ := h.timely
  have hnone : publishedIn [x] = [] := by simp [publishedIn, hx]
  refine ⟨h.attached, h.clock, h.catalog, h.aliases, h.generation, later ++ [x], ?_, ?_, ?_⟩
  · rw [mark_trail, htrail, List.append_assoc]
  · rwa [publishedIn_append, hnone, List.append_nil]
  · rwa [updatesOf_append, updatesOf, updatesOf, hnone, List.filter_nil, List.append_nil]

/-- No deed in a pass does more, unless it loads rules. -/
theorem law_steady (d : Reference) (start : World) : PassLaw (fun _ => False) (Steady d start) where
  bus _ h := ⟨h.attached, h.clock, h.catalog, h.aliases, h.generation, h.timely⟩
  queue _ _ h := ⟨h.attached, h.clock, h.catalog, h.aliases, h.generation, h.timely⟩
  report _ h := ⟨h.attached, h.clock, h.catalog, h.aliases, h.generation, h.timely⟩
  update r v source h := h.noted rfl rfl rfl rfl (Platform.chain_update _ r d v source)
  command r v source h := h.noted rfl rfl rfl rfl (Platform.chain_command _ r d v source)
  note _ h := ⟨h.attached, h.clock, h.catalog, h.aliases, h.generation, h.timely⟩
  services _ _ h := ⟨h.attached, h.clock, h.catalog, h.aliases, h.generation, h.timely⟩
  mark _ hx h := h.mark hx
  recorded _ h := ⟨h.attached, h.clock, h.catalog, h.aliases, h.generation, h.timely⟩
  reload _ hnever _ := hnever.elim

theorem Steady.storeMachine (h : Steady d start w) (generation index : Nat) (m : Machine) :
    Steady d start (w.storeMachine generation index m) := by
  refine ⟨h.attached, h.clock, h.catalog, ?_, ?_, h.timely⟩
  · rw [← h.aliases]
    unfold World.storeMachine Engine.store
    dsimp only
    split <;> rfl
  · rw [storeMachine_generation, h.generation]

end World
end Domotics
