import Domotics.Proofs.Engine.Load
import Domotics.Proofs.Run.Deed
import Domotics.Proofs.Time.Order
import Mathlib.Data.List.Infix

/-!
What a run keeps that loads rules for no other times than it may. Which loads a run makes is seen in the trail,
so that the condition is on them, and not on the actions that the rules might run.
-/

namespace Domotics

namespace Happening

def load? : Happening → Option (Moment × Moment)
  | loaded armed present => some (armed, present)
  | _ => none

def loadsIn (trail : List Happening) : List (Moment × Moment) := trail.filterMap load?

theorem loadsIn_subset {t u : List Happening} (h : t ⊆ u) : loadsIn t ⊆ loadsIn u := List.filterMap_subset load? h

end Happening

namespace World

open Happening

/-- What has been loaded since some point of the trail, each for a time at a time, may be loaded. -/
def LoadsSince (before : List Happening) (ok : Moment → Moment → Prop) (w : World) : Prop :=
  ∀ x ∈ loadsIn (w.trail.drop before.length), ok x.1 x.2

/-- No rules have been loaded for a time that had passed. -/
def LoadsAhead (w : World) : Prop := w.LoadsSince [] fun armed present => present.NotAfter armed

instance (before : List Happening) (ok : Moment → Moment → Prop) [∀ armed present, Decidable (ok armed present)]
    (w : World) : Decidable (w.LoadsSince before ok) :=
  inferInstanceAs (Decidable (∀ x ∈ loadsIn (w.trail.drop before.length), ok x.1 x.2))

instance (w : World) : Decidable w.LoadsAhead :=
  inferInstanceAs (Decidable (w.LoadsSince [] fun armed present => present.NotAfter armed))

/-- A property that a world has if what has been loaded since some point of the trail may be loaded. -/
structure Provided (before : List Happening) (ok : Moment → Moment → Prop) (P : World → Prop) (w : World) :
    Prop where
  goesOn : before <+: w.trail
  holds : w.LoadsSince before ok → P w

variable {before : List Happening} {ok : Moment → Moment → Prop} {P P' : World → Prop} {w w' : World}

theorem LoadsSince.of_prefix (h : w'.LoadsSince before ok) (htrail : w.trail <+: w'.trail) :
    w.LoadsSince before ok :=
  fun x hx => h x (loadsIn_subset (htrail.drop before.length).subset hx)

theorem LoadsSince.later {later : List Happening} (h : w.LoadsSince before ok) (hle : before <+: later) :
    w.LoadsSince later ok :=
  fun x hx => h x (loadsIn_subset (List.drop_subset_drop_left w.trail hle.length_le) hx)

theorem Provided.start (h : P w) : Provided w.trail ok P w := ⟨List.prefix_rfl, fun _ => h⟩

theorem Provided.step (h : Provided before ok P w) (htrail : w.trail <+: w'.trail)
    (hkeeps : w'.LoadsSince before ok → P w → P' w') : Provided before ok P' w' where
  goesOn := h.goesOn.trans htrail
  holds hloads := hkeeps hloads (h.holds (hloads.of_prefix htrail))

theorem prefix_noted (w : World) (done : Platform × Event) : w.trail <+: (w.noted done).trail := by
  rw [noted]
  split
  · exact prefix_mark ..
  · exact List.prefix_rfl

/-- Passes keep a property on this condition if every deed in them keeps it, and every load that may be made. -/
theorem passLaw_provided (law : PassLaw (fun _ => False) P)
    (hload : ∀ {w v : World} (time : Option Moment), w.load w.lastRuleSet time = (v, .ok ()) →
      ok (time.getD w.platform.now) w.platform.now → P w → P v) :
    PassLaw (fun _ => True) (Provided before ok P) where
  bus bus h := h.step List.prefix_rfl fun _ => law.bus bus
  queue pending draining h := h.step List.prefix_rfl fun _ => law.queue pending draining
  report r h := h.step List.prefix_rfl fun _ => law.report r
  update r v source h := h.step (prefix_noted ..) fun _ => law.update r v source
  command r v source h := h.step (prefix_noted ..) fun _ => law.command r v source
  note line h := h.step List.prefix_rfl fun _ => law.note line
  services storage notes h := h.step List.prefix_rfl fun _ => law.services storage notes
  mark {w} x hx h := h.step (prefix_mark ..) fun _ => law.mark x hx
  recorded record h := h.step List.prefix_rfl fun _ => law.recorded record
  reload {w} time _ h := by
    rw [reload]
    rcases hload' : w.load w.lastRuleSet time with ⟨v, fault | ⟨⟩⟩
    · rwa [eq_of_load_error hload']
    · have htrail : (v.mark (.loaded (time.getD w.platform.now) w.platform.now)).trail =
          w.trail ++ [.loaded (time.getD w.platform.now) w.platform.now] := by
        obtain ⟨book, -, rfl⟩ := build_of_load hload'
        exact mark_trail ..
      refine h.step (htrail ▸ List.prefix_append ..) fun hloads hw => law.mark _ rfl ?_
      obtain ⟨added, hadded⟩ := h.goesOn
      have hmem : .loaded (time.getD w.platform.now) w.platform.now ∈
          (v.mark (.loaded (time.getD w.platform.now) w.platform.now)).trail.drop before.length := by
        rw [htrail, ← hadded, List.append_assoc, List.drop_left]
        simp
      exact hload time hload' (hloads (_, _) (List.mem_filterMap.mpr ⟨_, hmem, rfl⟩)) hw

end World
end Domotics
