import Domotics.Proofs.Engine.Load
import Domotics.Proofs.Result

/-!
Which rule sets can be loaded: those whose aliases have names and do not contradict each other, whose rules
have names of their own and no negative cooldown, and whose periodic fires can be planned. Any other set is
refused.
-/

namespace Domotics

namespace AliasRegistry

/-- A registry that takes new names and knows the first targets of some bindings. -/
structure Knows (r : AliasRegistry) (earlier : List (String × AliasTarget)) : Prop where
  unfrozen : r.frozen = false
  lookup : ∀ name, r.lookup? name = (earlier.find? (·.1 == name)).map (·.2)

/-- Bindings that can follow others: each has a name and agrees with the first one of its name. -/
structure Fits (earlier bindings : List (String × AliasTarget)) : Prop where
  named : ∀ b ∈ bindings, b.1 ≠ ""
  agree : ∀ before b after, bindings = before ++ b :: after →
    ∀ first, (earlier ++ before).find? (·.1 == b.1) = some first → first.2.agrees b.2 = true

theorem knows_empty : Knows {} [] := ⟨rfl, fun _ => rfl⟩

variable {r : AliasRegistry} {earlier rest : List (String × AliasTarget)} {b : String × AliasTarget}

theorem fits_cons_iff : Fits earlier (b :: rest) ↔ b.1 ≠ "" ∧
    (∀ first, earlier.find? (·.1 == b.1) = some first → first.2.agrees b.2 = true) ∧
      Fits (earlier ++ [b]) rest := by
  constructor
  · intro h
    refine ⟨h.named b (List.mem_cons_self ..), fun first hfirst => ?_, ⟨fun c hc => ?_, ?_⟩⟩
    · exact h.agree [] b rest rfl first (by rwa [List.append_nil])
    · exact h.named c (List.mem_cons_of_mem b hc)
    · intro before c after hrest first hfirst
      have hsplit : b :: rest = (b :: before) ++ c :: after := by rw [hrest]; rfl
      exact h.agree (b :: before) c after hsplit first (by simpa using hfirst)
  · rintro ⟨hname, hagree, hrest⟩
    refine ⟨List.forall_mem_cons.mpr ⟨hname, hrest.named⟩, fun before c after hsplit first hfirst => ?_⟩
    cases before with
    | nil =>
      cases hsplit
      exact hagree first (by simpa using hfirst)
    | cons d before =>
      obtain ⟨rfl, hlater⟩ := List.cons.inj hsplit
      exact hrest.agree before c after hlater first (by simpa using hfirst)

theorem register_isOk_iff (h : r.Knows earlier) : (∃ next, r.register b.1 b.2 = .ok next) ↔
    b.1 ≠ "" ∧ ∀ first, earlier.find? (·.1 == b.1) = some first → first.2.agrees b.2 = true := by
  have hlookup := h.lookup b.1
  rw [register]
  by_cases hname : b.1 = ""
  · simp [hname]
  · cases hfind : earlier.find? (·.1 == b.1) with
    | none =>
      rw [hfind] at hlookup
      simp [hname, hlookup, h.unfrozen]
    | some first =>
      rw [hfind] at hlookup
      cases hagrees : first.2.agrees b.2 <;> simp [hname, hlookup, hagrees]

theorem Knows.register (h : r.Knows earlier) {next : AliasRegistry} (hnext : r.register b.1 b.2 = .ok next) :
    next.Knows (earlier ++ [b]) := by
  have hlookup := h.lookup b.1
  rw [AliasRegistry.register] at hnext
  by_cases hname : b.1 = ""
  · simp [hname] at hnext
  rw [if_neg hname, hlookup] at hnext
  cases hfind : earlier.find? (·.1 == b.1) with
  | none =>
    simp only [hfind, Option.map_none, h.unfrozen, Bool.false_eq_true, if_false] at hnext
    cases hnext
    refine ⟨rfl, fun name => ?_⟩
    have hold := h.lookup name
    simp only [lookup?] at hold ⊢
    rw [List.find?_append, List.find?_append, Option.map_or, hold, Option.map_or]
  | some first =>
    simp only [hfind, Option.map_some] at hnext
    split_ifs at hnext
    cases hnext
    refine ⟨h.unfrozen, fun name => ?_⟩
    rw [h.lookup, List.find?_append]
    cases hold : earlier.find? (·.1 == name) with
    | some other => rfl
    | none =>
      have hne : b.1 ≠ name := by
        rintro rfl
        rw [hfind] at hold
        cases hold
      simp [hne]

theorem registerAll_isOk_iff (h : r.Knows earlier) (bindings : List (String × AliasTarget)) :
    (r.registerAll bindings).2 = .ok () ↔ Fits earlier bindings := by
  induction bindings generalizing r earlier with
  | nil => exact ⟨fun _ => ⟨by simp, by simp⟩, fun _ => rfl⟩
  | cons b rest ih =>
    have hone := register_isOk_iff (b := b) h
    rw [fits_cons_iff, ← and_assoc, ← hone, registerAll]
    cases hnext : r.register b.1 b.2 with
    | error fault => simp
    | ok next => simpa using ih (h.register hnext)

theorem mem_of_register {r next : AliasRegistry} {b : String × AliasTarget} (h : r.register b.1 b.2 = .ok next) :
    ∀ x ∈ next.bindings, x ∈ r.bindings ∨ x = b := by
  rw [register] at h
  by_cases hname : b.1 = ""
  · simp [hname] at h
  rw [if_neg hname] at h
  cases hlookup : r.lookup? b.1 with
  | none =>
    simp only [hlookup] at h
    split_ifs at h
    cases h
    simp
  | some bound =>
    simp only [hlookup] at h
    split_ifs at h
    cases h
    exact fun x hx => .inl hx

theorem mem_of_registerAll {r bound : AliasRegistry} {bindings : List (String × AliasTarget)}
    (h : r.registerAll bindings = (bound, .ok ())) : ∀ x ∈ bound.bindings, x ∈ r.bindings ∨ x ∈ bindings := by
  induction bindings generalizing r with
  | nil =>
    cases h
    exact fun x hx => .inl hx
  | cons b rest ih =>
    rw [registerAll] at h
    cases hnext : r.register b.1 b.2 with
    | error fault => simp [hnext] at h
    | ok next =>
      simp only [hnext] at h
      intro x hx
      rcases ih h x hx with hx | hx
      · rcases mem_of_register hnext x hx with hx | rfl
        · exact .inl hx
        · exact .inr (List.mem_cons_self ..)
      · exact .inr (List.mem_cons_of_mem _ hx)

end AliasRegistry

def Machine.ofRule (r : Rule) : Machine :=
  { rule := r, retrigger := { cooldown := r.cooldown, specs := r.periodic } }

def RuleSet.bindings (rs : RuleSet) : List (String × AliasTarget) :=
  (rs.aliases :: rs.rules.map (·.aliases)).flatten

/-- A rule set that can be loaded at some time: its aliases fit, its rules have names that tell them apart
and no negative cooldowns, and the first periodic fire of each can be planned. -/
structure RuleSet.Loadable (rs : RuleSet) (now : Moment) (solar : SolarCalendar) : Prop where
  aliases : AliasRegistry.Fits [] rs.bindings
  names : ∀ r ∈ rs.rules, r.name.isScalar = true
  differ : rs.rules.Pairwise RuleBook.Differ
  cooldowns : ∀ r ∈ rs.rules, .zero ≤ r.cooldown
  arms : ∀ r ∈ rs.rules, ((Machine.ofRule r).retrigger.arm now solar).2 = .ok ()

namespace RuleBook

open AliasRegistry

theorem bindAll_eq (r : AliasRegistry) (lists : List (List (String × AliasTarget))) :
    bindAll r lists = match r.registerAll lists.flatten with
      | (r, .ok ()) => .ok r
      | (_, .error fault) => .error fault := by
  induction lists generalizing r with
  | nil => rfl
  | cons aliases rest ih =>
    rw [bindAll, List.flatten_cons, registerAll_append]
    rcases r.registerAll aliases with ⟨next, fault | ⟨⟩⟩
    · rfl
    · exact ih next

theorem bindAll_isOk_iff (lists : List (List (String × AliasTarget))) :
    (∃ bound, bindAll {} lists = .ok bound) ↔ Fits [] lists.flatten := by
  rw [← registerAll_isOk_iff knows_empty, bindAll_eq]
  rcases registerAll {} lists.flatten with ⟨bound, fault | ⟨⟩⟩ <;> simp

theorem make_eq_ok_iff {cooldown : Duration} {specs : List Periodic} {retrigger : Retrigger} :
    Retrigger.make cooldown specs = .ok retrigger ↔ .zero ≤ cooldown ∧ retrigger = { cooldown, specs } := by
  rw [Retrigger.make]
  split_ifs with hnegative
  · have hnot : ¬ Duration.zero ≤ cooldown := Int.not_le.mpr hnegative
    simp [hnot]
  · have hle : Duration.zero ≤ cooldown := Int.not_lt.mp hnegative
    simp [hle, eq_comm]

theorem addMachines_cons_eq_ok_iff {r : Rule} {rest : List Rule} {earlier machines : List Machine} :
    addMachines earlier (r :: rest) = .ok machines ↔
      r.name.isScalar = true ∧ (∀ m ∈ earlier, Differ m.rule r) ∧ .zero ≤ r.cooldown ∧
        addMachines (earlier ++ [.ofRule r]) rest = .ok machines := by
  constructor
  · intro h
    obtain ⟨hname, hnew, retrigger, hmake, hrest⟩ := addMachines_cons_eq_ok h
    obtain ⟨hcooldown, rfl⟩ := make_eq_ok_iff.mp hmake
    exact ⟨hname, hnew, hcooldown, hrest⟩
  · rintro ⟨hname, hnew, hcooldown, hrest⟩
    have hany : earlier.any (·.rule.name.agrees r.name) = false := by
      rw [List.any_eq_false]
      intro m hm
      exact Bool.eq_false_iff.mp (hnew m hm)
    have hmake : Retrigger.make r.cooldown r.periodic = .ok (Machine.ofRule r).retrigger :=
      make_eq_ok_iff.mpr ⟨hcooldown, rfl⟩
    rw [addMachines, hname, hany, hmake]
    exact hrest

/-- The rules of a set are set up, each as it is written, if no name stands for two of them. -/
theorem addMachines_eq_ok_iff {rules : List Rule} {earlier machines : List Machine} :
    addMachines earlier rules = .ok machines ↔
      ((∀ r ∈ rules, r.name.isScalar = true) ∧ rules.Pairwise Differ ∧
        (∀ m ∈ earlier, ∀ r ∈ rules, Differ m.rule r) ∧ (∀ r ∈ rules, .zero ≤ r.cooldown)) ∧
      machines = earlier ++ rules.map .ofRule := by
  induction rules generalizing earlier with
  | nil => simp [addMachines, eq_comm (a := earlier)]
  | cons r rest ih =>
    rw [addMachines_cons_eq_ok_iff, ih]
    simp only [List.forall_mem_cons, List.pairwise_cons, List.map_cons, List.append_assoc,
      List.singleton_append, List.forall_mem_append, List.mem_singleton, forall_eq]
    constructor
    · rintro ⟨hname, hnew, hcooldown, ⟨hnames, hdiffer, ⟨hothers, hfirst⟩, hcooldowns⟩, hmachines⟩
      exact ⟨⟨⟨hname, hnames⟩, ⟨hfirst, hdiffer⟩, fun m hm => ⟨hnew m hm, hothers m hm⟩,
        ⟨hcooldown, hcooldowns⟩⟩, hmachines⟩
    · rintro ⟨⟨⟨hname, hnames⟩, ⟨hfirst, hdiffer⟩, hnew, ⟨hcooldown, hcooldowns⟩⟩, hmachines⟩
      exact ⟨hname, fun m hm => (hnew m hm).1, hcooldown,
        ⟨hnames, hdiffer, ⟨fun m hm => (hnew m hm).2, hfirst⟩, hcooldowns⟩, hmachines⟩

theorem armAll_isOk_iff {now : Moment} {solar : SolarCalendar} {machines : List Machine} :
    (∃ armed, armAll now solar machines = .ok armed) ↔
      ∀ m ∈ machines, (m.retrigger.arm now solar).2 = .ok () := by
  induction machines with
  | nil => simp [armAll]
  | cons m rest ih =>
    rw [armAll, List.forall_mem_cons, ← ih]
    rcases m.retrigger.arm now solar with ⟨retrigger, fault | ⟨⟩⟩
    · simp
    · cases armAll now solar rest <;> simp [bind, Except.bind, pure, Except.pure]

/-- A rule set can be set up if it is loadable. -/
theorem build_isOk_iff {rs : RuleSet} {now : Moment} {solar : SolarCalendar} :
    (∃ book, build rs now solar = .ok book) ↔ rs.Loadable now solar := by
  have haliases := bindAll_isOk_iff (rs.aliases :: rs.rules.map (·.aliases))
  have harms : (∃ armed, armAll now solar (rs.rules.map .ofRule) = .ok armed) ↔ _ := armAll_isOk_iff
  rw [List.forall_mem_map] at harms
  constructor
  · rintro ⟨book, hbuild⟩
    obtain ⟨bound, hbound, hbuild⟩ := Result.bind_eq_ok.mp hbuild
    obtain ⟨machines, hmachines, hbuild⟩ := Result.bind_eq_ok.mp hbuild
    obtain ⟨armed, harmed, -⟩ := Result.bind_eq_ok.mp hbuild
    obtain ⟨⟨hnames, hdiffer, -, hcooldowns⟩, rfl⟩ := addMachines_eq_ok_iff.mp hmachines
    exact ⟨haliases.mp ⟨bound, hbound⟩, hnames, hdiffer, hcooldowns, harms.mp ⟨armed, harmed⟩⟩
  · intro h
    obtain ⟨bound, hbound⟩ := haliases.mpr h.aliases
    obtain ⟨armed, harmed⟩ := harms.mpr h.arms
    have hmachines : addMachines [] rs.rules = .ok (rs.rules.map .ofRule) :=
      addMachines_eq_ok_iff.mpr ⟨⟨h.names, h.differ, by simp, h.cooldowns⟩, rfl⟩
    exact ⟨_, by rw [build, hbound, hmachines, Result.ok_bind, Result.ok_bind, harmed]; rfl⟩

end RuleBook
end Domotics
