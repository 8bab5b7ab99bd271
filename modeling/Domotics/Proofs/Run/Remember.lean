import Domotics.Proofs.Engine.Load
import Domotics.Proofs.Run.Round

/-!
What the rules of a load remember of what has happened since. A turn of a rule changes what that rule
remembers, and it is put back in its place among the others, whose names differ from its own.
-/

namespace Domotics

namespace RuleBook

def Apart (rules : List Rule) : Prop := rules.Pairwise fun r s => Differ r s ∧ Differ s r

theorem Holds.isScalar {book : RuleBook} {rules : List Rule} (h : book.Holds rules) :
    ∀ r ∈ rules, r.name.isScalar = true := by
  intro r hr
  rw [← h.inOrder] at hr
  obtain ⟨m, hm, rfl⟩ := List.mem_map.mp hr
  exact (h.fresh m hm).name

theorem Holds.apart {book : RuleBook} {rules : List Rule} (h : book.Holds rules) : Apart rules := by
  refine h.differ.imp_of_mem fun {r s} hr hs hdiffer => ⟨hdiffer, ?_⟩
  rw [Differ, Document.agrees_comm_of_isScalar (h.isScalar s hs) (h.isScalar r hr)]
  exact hdiffer

theorem Apart.differ {rules : List Rule} (h : Apart rules) {i j : Nat} {r s : Rule}
    (hi : rules[i]? = some r) (hj : rules[j]? = some s) (hij : i ≠ j) : Differ r s := by
  obtain ⟨hilt, rfl⟩ := List.getElem?_eq_some_iff.mp hi
  obtain ⟨hjlt, rfl⟩ := List.getElem?_eq_some_iff.mp hj
  rcases Nat.lt_or_gt_of_ne hij with hlt | hlt
  · exact (List.pairwise_iff_getElem.mp h i j hilt hjlt hlt).1
  · exact (List.pairwise_iff_getElem.mp h j i hjlt hilt hlt).2

theorem Apart.filter_agrees {rules : List Rule} {r : Rule} (h : Apart rules) (hr : r ∈ rules)
    (hname : r.name.isScalar = true) : rules.filter (·.name.agrees r.name) = [r] := by
  induction rules with
  | nil => cases hr
  | cons s rest ih =>
    obtain ⟨hfirst, hrest⟩ := List.pairwise_cons.mp h
    rcases List.mem_cons.mp hr with rfl | hr
    · have hnone : rest.filter (·.name.agrees r.name) = [] :=
        List.filter_eq_nil_iff.mpr fun s hs => ne_true_of_eq_false (hfirst s hs).2
      rw [List.filter_cons_of_pos (by simpa using Document.agrees_self_of_isScalar hname), hnone]
    · have hother : ¬ s.name.agrees r.name = true := ne_true_of_eq_false (hfirst r hr).1
      rw [List.filter_cons, if_neg hother, ih hrest hr]

end RuleBook

namespace World

/-- Since the load of generation `g`, at which `before` had happened, each of its rules remembers what has
happened as `T` says. -/
structure Remembers (T : Machine → List Happening → Prop) (g : Nat) (before : List Happening)
    (rules : List Rule) (w : World) : Prop where
  generation : g ≤ w.engine.generation
  since : w.engine.generation = g → ∃ later, w.trail = before ++ later ∧
    w.engine.book.machines.map (·.rule) = rules ∧ ∀ m ∈ w.engine.book.machines, T m later

variable {T : Machine → List Happening → Prop} {plain : Prop} {g generation index : Nat}
  {before added : List Happening} {rules : List Rule} {w w' : World} {m m' : Machine}
  {rest : List Machine}

theorem Remembers.quiet (h : w.Remembers T g before rules)
    (hgeneration : w'.engine.generation = w.engine.generation)
    (hbook : w'.engine.book = w.engine.book) (htrail : w'.trail = w.trail) :
    w'.Remembers T g before rules := by
  refine ⟨hgeneration ▸ h.generation, fun hsame => ?_⟩
  rw [hbook, htrail]
  exact h.since (hgeneration ▸ hsame)

theorem Remembers.mark {x : Happening} (h : w.Remembers T g before rules)
    (hx : ∀ m later, T m later → T m (later ++ [x])) : (w.mark x).Remembers T g before rules := by
  refine ⟨h.generation, fun hgeneration => ?_⟩
  obtain ⟨later, htrail, hrules, hkept⟩ := h.since hgeneration
  refine ⟨later ++ [x], ?_, hrules, fun m hm => hx m later (hkept m hm)⟩
  rw [mark_trail, htrail, List.append_assoc]

theorem Remembers.store (h : w.Remembers T g before rules) (hapart : RuleBook.Apart rules)
    (hahead : w.Ahead generation index (m :: rest)) (hg : g ≤ generation)
    (hle : generation ≤ w.engine.generation) (hacts : w.Acts plain w' added)
    (hrule : m'.rule = m.rule) (hturn : ∀ later, T m later → T m' (later ++ added))
    (hothers : ∀ x later, RuleBook.Differ m.rule x.rule → T x later → T x (later ++ added)) :
    (w'.storeMachine generation index m').Remembers T g before rules := by
  have hmono := hacts.generation
  refine ⟨by simpa using Nat.le_trans h.generation hmono, fun hgeneration => ?_⟩
  rw [storeMachine_generation] at hgeneration
  have hsame : w.engine.generation = generation := by omega
  obtain ⟨later, htrail, hrules, hkept⟩ := h.since (by omega)
  have hm := hahead.getElem?_eq hsame
  have hmrule : rules[index]? = some m.rule := by
    rw [← hrules, List.getElem?_map, hm, Option.map_some]
  refine ⟨later ++ added, ?_, ?_, ?_⟩
  · rw [storeMachine_trail, hacts.trail, htrail, List.append_assoc]
  · rw [hahead.map_store (·.rule) hsame hacts (by omega) hrule, hrules]
  · rw [storeMachine_machines m' (by omega), hacts.book (by omega)]
    intro x hx
    obtain ⟨j, hj⟩ := List.mem_iff_getElem?.mp hx
    by_cases hij : index = j
    · subst hij
      obtain ⟨hlt, _⟩ := List.getElem?_eq_some_iff.mp hm
      rw [List.getElem?_set_self hlt, Option.some.injEq] at hj
      subst hj
      exact hturn later (hkept m (List.mem_of_getElem? hm))
    · rw [List.getElem?_set_ne hij] at hj
      have hxrule : rules[j]? = some x.rule := by
        rw [← hrules, List.getElem?_map, hj, Option.map_some]
      exact hothers x later (hapart.differ hmrule hxrule hij) (hkept x (List.mem_of_getElem? hj))

end World
end Domotics
