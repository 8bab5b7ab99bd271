import Domotics.World
import Mathlib.Tactic.SplitIfs

/-!
What a successful load leaves in the engine: the rules of the set in order, each as it is before its
first event, and each named differently from all others.
-/

namespace Domotics

theorem Binary64.compare?_swap (x y : Binary64) :
    y.compare? x = (x.compare? y).map Ordering.swap := by
  cases x with
  | nan => cases y <;> rfl
  | infinite s =>
    cases y with
    | nan => rfl
    | infinite t =>
      simp only [compare?, Option.map_some, Option.some.injEq]
      exact Std.OrientedCmp.eq_swap
    | finite t b => cases s <;> rfl
  | finite s a =>
    cases y with
    | nan => rfl
    | infinite t => cases t <;> rfl
    | finite t b =>
      simp only [compare?, Option.map_some, Option.some.injEq]
      exact Std.OrientedCmp.eq_swap

theorem Number.compare?_swap (x y : Number) : y.compare? x = (x.compare? y).map Ordering.swap := by
  cases x with
  | int m =>
    cases y with
    | int n =>
      simp only [compare?, Option.map_some, Option.some.injEq]
      exact Std.OrientedCmp.eq_swap
    | real y => rfl
  | real x =>
    cases y with
    | int n =>
      rw [compare?, compare?]
      cases Binary64.compareInt? n x with
      | none => rfl
      | some o => cases o <;> rfl
    | real y => exact Binary64.compare?_swap x y

theorem Number.equals_comm (x y : Number) : x.equals y = y.equals x := by
  rw [equals, equals, compare?_swap x y]
  cases x.compare? y with
  | none => rfl
  | some o => cases o <;> rfl

theorem Number.agrees_comm (x y : Number) : x.agrees y = y.agrees x := by
  rw [agrees, agrees, equals_comm, Bool.and_comm]

theorem Number.agrees_self (x : Number) : x.agrees x = true := by
  cases x with
  | int n => simp [agrees]
  | real x => cases x <;> simp [agrees, equals, compare?, Binary64.compare?]

theorem Document.agrees_self_of_isScalar {d : Document} (hd : d.isScalar = true) :
    d.agrees d = true := by
  cases d <;> simp_all [agrees, toNumber?, isScalar, Number.agrees_self]

theorem Document.agrees_comm_of_isScalar {d e : Document} (hd : d.isScalar = true)
    (he : e.isScalar = true) : d.agrees e = e.agrees d := by
  cases d <;> cases e <;>
    simp_all [agrees, toNumber?, isScalar, Number.agrees_comm, BEq.comm]

namespace AliasRegistry

theorem registerAll_append (r : AliasRegistry) (aliases later : List (String × AliasTarget)) :
    r.registerAll (aliases ++ later) = match r.registerAll aliases with
      | (r, .ok ()) => r.registerAll later
      | (r, .error fault) => (r, .error fault) := by
  induction aliases generalizing r with
  | nil => rfl
  | cons binding rest ih =>
    rw [List.cons_append, registerAll, registerAll]
    cases r.register binding.1 binding.2 with
    | ok next => exact ih next
    | error fault => rfl

end AliasRegistry

structure Machine.Fresh (m : Machine) : Prop where
  name : m.rule.name.isScalar = true
  cooldown : m.retrigger.cooldown = m.rule.cooldown
  cooldown_nonneg : .zero ≤ m.rule.cooldown
  lastFired : m.retrigger.lastFired = none
  cache : m.cache = {}
  specs : m.retrigger.specs = m.rule.periodic
  nextTick : m.rule.periodic = [] → m.retrigger.nextTick = none
  phase : m.phase = .idle

namespace RuleBook

def Differ (r s : Rule) : Prop := r.name.agrees s.name = false

theorem fresh_of_make {r : Rule} {retrigger : Retrigger} (hname : r.name.isScalar = true)
    (h : Retrigger.make r.cooldown r.periodic = .ok retrigger) :
    Machine.Fresh { rule := r, retrigger } := by
  rw [Retrigger.make] at h
  split_ifs at h with hnegative
  cases h
  refine ⟨hname, rfl, ?_, rfl, rfl, rfl, fun _ => rfl, rfl⟩
  simpa only [Duration.le_def, Duration.lt_def, Int.not_lt] using hnegative

theorem registerAll_of_bindAll {r bound : AliasRegistry} {lists : List (List (String × AliasTarget))}
    (h : bindAll r lists = .ok bound) : r.registerAll lists.flatten = (bound, .ok ()) := by
  induction lists generalizing r with
  | nil =>
    cases h
    rfl
  | cons aliases rest ih =>
    rw [bindAll] at h
    rw [List.flatten_cons, AliasRegistry.registerAll_append]
    rcases hfirst : r.registerAll aliases with ⟨next, fault | ⟨⟩⟩
    · rw [hfirst] at h
      cases h
    · rw [hfirst] at h
      exact ih h

theorem addMachines_cons_eq_ok {r : Rule} {rest : List Rule} {earlier machines : List Machine}
    (h : addMachines earlier (r :: rest) = .ok machines) :
    r.name.isScalar = true ∧ (∀ m ∈ earlier, Differ m.rule r) ∧ ∃ retrigger,
      Retrigger.make r.cooldown r.periodic = .ok retrigger ∧
      addMachines (earlier ++ [{ rule := r, retrigger }]) rest = .ok machines := by
  rw [addMachines] at h
  cases hname : r.name.isScalar with
  | false => simp [hname, bind, Except.bind] at h
  | true =>
    cases hany : earlier.any (·.rule.name.agrees r.name) with
    | true => simp [hname, hany, bind, Except.bind] at h
    | false =>
      cases hmake : Retrigger.make r.cooldown r.periodic with
      | error fault => simp [hname, hany, hmake, bind, Except.bind] at h
      | ok retrigger =>
        simp only [hname, hany, hmake, bind, Except.bind] at h
        exact ⟨rfl, by simpa [Differ] using hany, retrigger, rfl, h⟩

theorem addMachines_eq_ok {rules : List Rule} {earlier machines : List Machine}
    (h : addMachines earlier rules = .ok machines) :
    ∃ later, machines = earlier ++ later ∧ later.map (·.rule) = rules ∧
      (∀ m ∈ later, m.Fresh) ∧ rules.Pairwise Differ ∧
      ∀ m ∈ earlier, ∀ r ∈ rules, Differ m.rule r := by
  induction rules generalizing earlier with
  | nil =>
    cases h
    exact ⟨[], by simp, rfl, by simp, .nil, by simp⟩
  | cons r rest ih =>
    obtain ⟨hname, hnew, retrigger, hmake, hrest⟩ := addMachines_cons_eq_ok h
    obtain ⟨later, hmachines, hrules, hfresh, hpairwise, hdiffer⟩ := ih hrest
    refine ⟨{ rule := r, retrigger } :: later, ?_, ?_, ?_, ?_, ?_⟩
    · rw [hmachines, List.append_assoc, List.singleton_append]
    · rw [List.map_cons, hrules]
    · exact List.forall_mem_cons.mpr ⟨fresh_of_make hname hmake, hfresh⟩
    · refine List.pairwise_cons.mpr ⟨fun s hs => ?_, hpairwise⟩
      exact hdiffer { rule := r, retrigger } (by simp) s hs
    · intro m hm s hs
      rcases List.mem_cons.mp hs with rfl | hs
      · exact hnew m hm
      · exact hdiffer m (List.mem_append_left _ hm) s hs

theorem fresh_of_arm {m : Machine} {now : Moment} {solar : SolarCalendar} {retrigger : Retrigger}
    (hm : m.Fresh) (h : m.retrigger.arm now solar = (retrigger, .ok ())) :
    Machine.Fresh { m with retrigger } := by
  have hretrigger : retrigger = ({ m.retrigger with armedAt := some now }.plan now solar).1 := by
    rw [← Retrigger.arm, h]
  refine ⟨hm.name, ?_, hm.cooldown_nonneg, ?_, hm.cache, ?_, fun hnone => ?_, hm.phase⟩
  · simpa [hretrigger] using hm.cooldown
  · simpa [hretrigger] using hm.lastFired
  · simpa [hretrigger] using hm.specs
  · have hspecs : ({ m.retrigger with armedAt := some now } : Retrigger).specs = [] :=
      hm.specs.trans hnone
    simp only [hretrigger, Retrigger.plan_of_specs_eq_nil hspecs]

theorem armAll_eq_ok {now : Moment} {solar : SolarCalendar} {machines armed : List Machine}
    (hfresh : ∀ m ∈ machines, m.Fresh) (h : armAll now solar machines = .ok armed) :
    armed.map (·.rule) = machines.map (·.rule) ∧ ∀ m ∈ armed, m.Fresh := by
  induction machines generalizing armed with
  | nil =>
    cases h
    simp
  | cons m rest ih =>
    rw [armAll] at h
    rcases harm : m.retrigger.arm now solar with ⟨retrigger, fault | ⟨⟩⟩
    · simp [harm] at h
    · cases hrest : armAll now solar rest with
      | error fault => simp [harm, hrest, bind, Except.bind] at h
      | ok others =>
        simp only [harm, hrest, bind, Except.bind, pure, Except.pure] at h
        cases h
        obtain ⟨hrules, hothers⟩ := ih (fun x hx => hfresh x (List.mem_cons_of_mem m hx)) hrest
        have hfirst := fresh_of_arm (hfresh m (List.mem_cons_self ..)) harm
        exact ⟨by rw [List.map_cons, List.map_cons, hrules],
          List.forall_mem_cons.mpr ⟨hfirst, hothers⟩⟩

structure Holds (book : RuleBook) (rules : List Rule) : Prop where
  inOrder : book.machines.map (·.rule) = rules
  differ : rules.Pairwise Differ
  fresh : ∀ m ∈ book.machines, m.Fresh

theorem holds_of_build {rs : RuleSet} {now : Moment} {solar : SolarCalendar} {book : RuleBook}
    (h : build rs now solar = .ok book) : book.Holds rs.rules := by
  rw [build] at h
  cases haliases : bindAll {} (rs.aliases :: rs.rules.map (·.aliases)) with
  | error fault => simp [haliases, bind, Except.bind] at h
  | ok aliases =>
    cases hmachines : addMachines [] rs.rules with
    | error fault => simp [haliases, hmachines, bind, Except.bind] at h
    | ok machines =>
      cases harmed : armAll now solar machines with
      | error fault => simp [haliases, hmachines, harmed, bind, Except.bind] at h
      | ok armed =>
        simp only [haliases, hmachines, harmed, bind, Except.bind, pure, Except.pure] at h
        cases h
        obtain ⟨later, heq, hrules, hfresh, hdiffer, _⟩ := addMachines_eq_ok hmachines
        obtain ⟨harmedRules, harmedFresh⟩ := armAll_eq_ok (heq ▸ hfresh) harmed
        refine ⟨?_, hdiffer, harmedFresh⟩
        rw [harmedRules, heq, List.nil_append, hrules]

end RuleBook

/-- A load that succeeds replaces the rules by those that have been set up, and forgets the events that
wait. -/
theorem World.build_of_load {w w' : World} {rs : RuleSet} {now : Option Moment}
    (h : w.load rs now = (w', .ok ())) :
    ∃ book, RuleBook.build rs (now.getD w.platform.now) w.platform.solar = .ok book ∧
      w' = { w with
        engine := { w.engine with book, generation := w.engine.generation + 1, pending := [] }
        lastRuleSet := rs } := by
  rw [load, Engine.load] at h
  cases hbuild : RuleBook.build rs (now.getD w.platform.now) w.platform.solar with
  | error fault => simp [hbuild] at h
  | ok book =>
    simp only [hbuild, Prod.mk.injEq, and_true] at h
    exact ⟨book, rfl, h.symm⟩

theorem World.load_of_build {w : World} {rs : RuleSet} {now : Option Moment} {book : RuleBook}
    (h : RuleBook.build rs (now.getD w.platform.now) w.platform.solar = .ok book) :
    w.load rs now = ({ w with
      engine := { w.engine with book, generation := w.engine.generation + 1, pending := [] }
      lastRuleSet := rs }, .ok ()) := by
  simp only [load, Engine.load, h]

theorem World.eq_of_load_error {w w' : World} {rs : RuleSet} {now : Option Moment} {fault : Fault}
    (h : w.load rs now = (w', .error fault)) : w' = w := by
  rw [load, Engine.load] at h
  cases hbuild : RuleBook.build rs (now.getD w.platform.now) w.platform.solar with
  | ok book => simp [hbuild] at h
  | error fault =>
    rw [hbuild] at h
    cases h
    rfl

theorem World.load_eq_ok {w w' : World} {rs : RuleSet} {now : Option Moment}
    (h : w.load rs now = (w', .ok ())) :
    ∃ book : RuleBook, book.Holds rs.rules ∧
      w' = { w with
        engine := { w.engine with book, generation := w.engine.generation + 1, pending := [] }
        lastRuleSet := rs } := by
  obtain ⟨book, hbuild, hworld⟩ := build_of_load h
  exact ⟨book, RuleBook.holds_of_build hbuild, hworld⟩

end Domotics
