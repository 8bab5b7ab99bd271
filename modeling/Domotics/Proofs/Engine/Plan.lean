import Domotics.Proofs.Engine.Load
import Domotics.Proofs.Result
import Domotics.Proofs.Time.Order

/-!
Periodic fires are planned ahead: whatever the specifications, the arming and the last fire of a rule,
the next fire that is planned at some time lies after that time.
-/

namespace Domotics

namespace Bound

variable {b : Bound} {after t : Moment} {solar : SolarCalendar} {weekday : Option Weekday}

theorem before_occurrenceFrom {day : Day} {count : Nat}
    (h : b.occurrenceFrom after solar weekday day count = .ok t) : after.Before t := by
  induction count generalizing day with
  | zero => cases h
  | succ count ih =>
    rw [occurrenceFrom] at h
    split at h
    · cases h
    · split at h
      · exact ih h
      · obtain ⟨candidate, -, h⟩ := Result.bind_eq_ok.mp h
        obtain ⟨o, horder, h⟩ := Result.bind_eq_ok.mp h
        split at h
        · rename_i hlater
          cases h
          exact Moment.order_eq_gt_iff.mp (hlater ▸ horder)
        · exact ih h

end Bound

namespace Retrigger

variable {r : Retrigger} {base now t : Moment} {solar : SolarCalendar}

theorem before_intervalTick {interval : Interval} (h : intervalTick base now interval = .ok t) :
    now.Before t := by
  obtain ⟨first, hfirst, h⟩ := Result.bind_eq_ok.mp h
  obtain ⟨o, horder, h⟩ := Result.bind_eq_ok.mp h
  split at h
  · rename_i hlater
    cases h
    exact Moment.order_eq_gt_iff.mp (hlater ▸ horder)
  · -- The number of whole intervals since the base, and one more.
    obtain ⟨rfl, -⟩ := Moment.shift_eq_ok_iff.mp h
    obtain ⟨rfl, -⟩ := Moment.shift_eq_ok_iff.mp hfirst
    have hcomparable := (Moment.order_eq_ok_iff.mp horder).1
    refine ⟨hcomparable.symm, ?_⟩
    have hlt := Int.lt_ediv_add_one_mul_self (now.instant - base.instant) interval.positive
    simp only [Moment.instant, Moment.plus_ticks, Moment.plus_offset] at hlt ⊢
    omega

theorem before_tickOf {spec : Periodic} (h : r.tickOf now solar spec = .ok t) : now.Before t := by
  cases spec with
  | every interval =>
    obtain ⟨base, -, h⟩ := Result.bind_eq_ok.mp h
    exact before_intervalTick h
  | daily bound weekday => exact Bound.before_occurrenceFrom h

def earlier (best next : Moment) : Result Moment := do
  return if (← next.order best) = .lt then next else best

theorem earliest_cons (first : Moment) (rest : List Moment) :
    earliest (first :: rest) = some <$> rest.foldlM earlier first := rfl

theorem earlier_eq_or {best next : Moment} (h : earlier best next = .ok t) : t = best ∨ t = next := by
  obtain ⟨o, -, h⟩ := Result.bind_eq_ok.mp h
  cases h
  split
  · exact .inr rfl
  · exact .inl rfl

theorem mem_of_foldlM_earlier {first : Moment} {rest : List Moment}
    (h : rest.foldlM earlier first = .ok t) : t ∈ first :: rest := by
  induction rest generalizing first with
  | nil =>
    cases h
    exact List.mem_cons_self ..
  | cons next rest ih =>
    rw [List.foldlM_cons] at h
    obtain ⟨best, hbest, h⟩ := Result.bind_eq_ok.mp h
    rcases List.mem_cons.mp (ih h) with rfl | ht
    · rcases earlier_eq_or hbest with rfl | rfl <;> simp
    · simp [ht]

theorem mem_of_earliest {ticks : List Moment} (h : earliest ticks = .ok (some t)) : t ∈ ticks := by
  cases ticks with
  | nil => cases h
  | cons first rest =>
    rw [earliest_cons] at h
    cases hfold : rest.foldlM earlier first with
    | error fault =>
      rw [hfold] at h
      cases h
    | ok best =>
      rw [hfold] at h
      cases h
      exact mem_of_foldlM_earlier hfold

theorem exists_foldlM_earlier {first : Moment} {rest : List Moment} (hfirst : now.Comparable first)
    (hrest : ∀ t ∈ rest, now.Comparable t) : ∃ t, rest.foldlM earlier first = .ok t := by
  induction rest generalizing first with
  | nil => exact ⟨first, rfl⟩
  | cons next rest ih =>
    obtain ⟨hnext, hrest⟩ := List.forall_mem_cons.mp hrest
    have horder : next.order first = .ok (compare next.instant first.instant) :=
      Moment.order_eq_ok_iff.mpr ⟨hnext.symm.trans hfirst, rfl⟩
    rw [List.foldlM_cons, earlier, horder, Result.ok_bind, Result.pure_eq_ok, Result.ok_bind]
    split
    · exact ih hnext hrest
    · exact ih hfirst hrest

theorem exists_earliest {ticks : List Moment} (h : ∀ t ∈ ticks, now.Comparable t) :
    ∃ next, earliest ticks = .ok next := by
  cases ticks with
  | nil => exact ⟨none, rfl⟩
  | cons first rest =>
    obtain ⟨hfirst, hrest⟩ := List.forall_mem_cons.mp h
    obtain ⟨t, hfold⟩ := exists_foldlM_earlier hfirst hrest
    exact ⟨some t, by rw [earliest_cons, hfold]; rfl⟩

theorem notAfter_of_earlier {best next : Moment} (h : earlier best next = .ok t) :
    t.NotAfter best ∧ t.NotAfter next := by
  obtain ⟨o, horder, h⟩ := Result.bind_eq_ok.mp h
  cases h
  split
  · rename_i hlt
    exact ⟨(Moment.order_eq_lt_iff.mp (hlt ▸ horder)).notAfter, .refl next⟩
  · rename_i hne
    refine ⟨.refl best, ?_⟩
    rcases Moment.before_or_notAfter (Moment.order_eq_ok_iff.mp horder).1 with hbefore | hle
    · rw [Moment.order_eq_lt_iff.mpr hbefore] at horder
      cases horder
      exact absurd rfl hne
    · exact hle

theorem notAfter_of_foldlM_earlier {first : Moment} {rest : List Moment}
    (h : rest.foldlM earlier first = .ok t) : ∀ u ∈ first :: rest, t.NotAfter u := by
  induction rest generalizing first with
  | nil =>
    cases h
    simpa using Moment.NotAfter.refl t
  | cons next rest ih =>
    rw [List.foldlM_cons] at h
    obtain ⟨best, hbest, h⟩ := Result.bind_eq_ok.mp h
    obtain ⟨hleast, hrest⟩ := List.forall_mem_cons.mp (ih h)
    obtain ⟨hfirst, hnext⟩ := notAfter_of_earlier hbest
    refine List.forall_mem_cons.mpr ⟨hleast.trans hfirst, ?_⟩
    exact List.forall_mem_cons.mpr ⟨hleast.trans hnext, hrest⟩

theorem notAfter_of_earliest {ticks : List Moment} {next : Option Moment}
    (h : earliest ticks = .ok next) : ∀ u ∈ ticks, ∃ t, next = some t ∧ t.NotAfter u := by
  cases ticks with
  | nil => simp
  | cons first rest =>
    rw [earliest_cons] at h
    cases hfold : rest.foldlM earlier first with
    | error fault =>
      rw [hfold] at h
      cases h
    | ok best =>
      rw [hfold] at h
      cases h
      exact fun u hu => ⟨best, rfl, notAfter_of_foldlM_earlier hfold u hu⟩

theorem before_computeNext (h : r.computeNext now solar = .ok (some t)) : now.Before t := by
  obtain ⟨ticks, hticks, h⟩ := Result.bind_eq_ok.mp h
  obtain ⟨spec, -, htick⟩ := Result.mem_of_mapM hticks t (mem_of_earliest h)
  exact before_tickOf htick

/-- A plan that is made lies ahead, and nothing else changes. -/
theorem plan_eq_ok (h : (r.plan now solar).2 = .ok ()) :
    ∃ next, (r.plan now solar).1 = { r with nextTick := next } ∧ ∀ t ∈ next, now.Before t := by
  rw [plan] at h ⊢
  cases hnext : r.computeNext now solar with
  | error fault => simp [hnext] at h
  | ok next => exact ⟨next, rfl, fun t ht => before_computeNext (ht ▸ hnext)⟩

/-- A plan that cannot be made stays as it is. -/
theorem plan_of_error {fault : Fault} (h : (r.plan now solar).2 = .error fault) :
    (r.plan now solar).1 = r := by
  rw [plan] at h ⊢
  cases hnext : r.computeNext now solar with
  | error fault => rfl
  | ok next => simp [hnext] at h

def Armed (r : Retrigger) : Prop := r.armedAt.isSome = true

/-- Timers that have been started: the next periodic fire, if there is one, lies ahead of a time. -/
structure Punctual (now : Moment) (r : Retrigger) : Prop where
  armed : r.Armed
  ahead : ∀ t ∈ r.nextTick, now.Before t

theorem Armed.plan (h : r.Armed) (now : Moment) (solar : SolarCalendar) :
    (r.plan now solar).1.Armed ∧
    ((r.plan now solar).2 = .ok () → (r.plan now solar).1.Punctual now) ∧
    ∀ t, t.NotAfter now → r.Punctual t → (r.plan now solar).1.Punctual t := by
  cases hplan : (r.plan now solar).2 with
  | error fault =>
    rw [plan_of_error hplan]
    exact ⟨h, nofun, fun _ _ => id⟩
  | ok _ =>
    obtain ⟨next, hnext, hahead⟩ := plan_eq_ok hplan
    have hpunctual (t : Moment) (hle : t.NotAfter now) : (r.plan now solar).1.Punctual t := by
      rw [hnext]
      exact ⟨h, fun u hu => hle.trans_before (hahead u hu)⟩
    have hnow := hpunctual now (.refl now)
    exact ⟨hnow.armed, fun _ => hnow, fun t hle _ => hpunctual t hle⟩

theorem Armed.recordFired_eq_plan (h : r.Armed) (now : Moment) (solar : SolarCalendar) :
    r.recordFired now solar = { r with lastFired := some now }.plan now solar := by
  rw [Retrigger.recordFired]
  exact if_pos h

/-- A fire that is recorded plans ahead, and one that cannot be recorded leaves the plan as it is. -/
theorem Armed.recordFired (h : r.Armed) (now : Moment) (solar : SolarCalendar) :
    (r.recordFired now solar).1.Armed ∧
    ((r.recordFired now solar).2 = .ok () → (r.recordFired now solar).1.Punctual now) ∧
    ∀ t, t.NotAfter now → r.Punctual t → (r.recordFired now solar).1.Punctual t := by
  have hfired : Armed { r with lastFired := some now } := h
  rw [h.recordFired_eq_plan]
  obtain ⟨harmed, hok, hkeeps⟩ := hfired.plan now solar
  exact ⟨harmed, hok, fun t hle hp => hkeeps t hle ⟨hfired, hp.ahead⟩⟩

theorem Armed.punctual_of_not_due (h : r.Armed) (hdue : r.due now = .ok false) : r.Punctual now := by
  refine ⟨h, fun t ht => ?_⟩
  rw [due, ht] at hdue
  obtain ⟨o, horder, hdue⟩ := Result.bind_eq_ok.mp hdue
  have hlt : o = .lt := by simpa [Result.pure_eq_ok] using hdue
  exact Moment.order_eq_lt_iff.mp (hlt ▸ horder)

theorem punctual_of_arm (h : (r.arm now solar).2 = .ok ()) : (r.arm now solar).1.Punctual now :=
  have harmed : Armed { r with armedAt := some now } := rfl
  (harmed.plan now solar).2.1 h

end Retrigger

namespace RuleBook

variable {now : Moment} {solar : SolarCalendar}

theorem mem_of_armAll {machines armed : List Machine} (h : armAll now solar machines = .ok armed) :
    ∀ m ∈ armed, ∃ m₀ ∈ machines, ∃ retrigger,
      m₀.retrigger.arm now solar = (retrigger, .ok ()) ∧ m = { m₀ with retrigger } := by
  induction machines generalizing armed with
  | nil =>
    cases h
    simp
  | cons m rest ih =>
    rw [armAll] at h
    split at h
    · rename_i retrigger harm
      obtain ⟨others, hothers, h⟩ := Result.bind_eq_ok.mp h
      cases h
      refine List.forall_mem_cons.mpr ⟨⟨m, List.mem_cons_self .., retrigger, harm, rfl⟩, ?_⟩
      intro other hother
      obtain ⟨m₀, hm₀, hother⟩ := ih hothers other hother
      exact ⟨m₀, List.mem_cons_of_mem _ hm₀, hother⟩
    · cases h

/-- A rule as it was made, with its timer started. -/
structure Made (now : Moment) (solar : SolarCalendar) (m : Machine) : Prop where
  name : m.rule.name.isScalar = true
  timer : ∃ t, Retrigger.make m.rule.cooldown m.rule.periodic = .ok t ∧
    t.arm now solar = (m.retrigger, .ok ())
  fresh : m = { rule := m.rule, retrigger := m.retrigger }

theorem made_of_addMachines {rules : List Rule} {earlier machines : List Machine}
    (h : addMachines earlier rules = .ok machines) : ∀ m ∈ machines, m ∈ earlier ∨
      m.rule.name.isScalar = true ∧ ∃ t, Retrigger.make m.rule.cooldown m.rule.periodic = .ok t ∧
        m = { rule := m.rule, retrigger := t } := by
  induction rules generalizing earlier with
  | nil =>
    cases h
    exact fun m hm => .inl hm
  | cons r rest ih =>
    obtain ⟨hname, -, t, hmake, hrest⟩ := addMachines_cons_eq_ok h
    intro m hm
    rcases ih hrest m hm with hearlier | hmade
    · rcases List.mem_append.mp hearlier with hearlier | hnew
      · exact .inl hearlier
      · rw [List.mem_singleton.mp hnew]
        exact .inr ⟨hname, t, hmake, rfl⟩
    · exact .inr hmade

theorem made_of_build {rs : RuleSet} {book : RuleBook} (h : build rs now solar = .ok book) :
    ∀ m ∈ book.machines, Made now solar m := by
  obtain ⟨aliases, -, h⟩ := Result.bind_eq_ok.mp h
  obtain ⟨machines, hmachines, h⟩ := Result.bind_eq_ok.mp h
  obtain ⟨armed, harmed, h⟩ := Result.bind_eq_ok.mp h
  cases h
  intro m hm
  obtain ⟨m₀, hm₀, retrigger, harm, rfl⟩ := mem_of_armAll harmed m hm
  rcases made_of_addMachines hmachines m₀ hm₀ with hnone | ⟨hname, t, hmake, heq⟩
  · cases hnone
  · rw [heq] at harm
    refine ⟨hname, ⟨t, hmake, harm⟩, ?_⟩
    rw [heq]

/-- Every rule that is set up starts from a fresh one of the rule set. -/
theorem mem_of_build {rs : RuleSet} {book : RuleBook} (h : build rs now solar = .ok book) :
    ∀ m ∈ book.machines, ∃ m₀ : Machine, m₀.Fresh ∧ m₀.rule ∈ rs.rules ∧ ∃ retrigger,
      m₀.retrigger.arm now solar = (retrigger, .ok ()) ∧ m = { m₀ with retrigger } := by
  intro m hm
  obtain ⟨hname, ⟨t, hmake, harm⟩, hfresh⟩ := made_of_build h m hm
  have hrule : m.rule ∈ rs.rules := by
    rw [← (holds_of_build h).inOrder]
    exact List.mem_map_of_mem hm
  exact ⟨{ rule := m.rule, retrigger := t }, fresh_of_make hname hmake, hrule, m.retrigger, harm, hfresh⟩

/-- Rules that are set up at some time plan ahead of it. -/
theorem punctual_of_build {rs : RuleSet} {book : RuleBook} (h : build rs now solar = .ok book) :
    ∀ m ∈ book.machines, m.retrigger.Punctual now := by
  intro m hm
  obtain ⟨m₀, -, -, retrigger, harm, rfl⟩ := mem_of_build h m hm
  have hpunctual := Retrigger.punctual_of_arm (by rw [harm])
  rwa [harm] at hpunctual

end RuleBook
end Domotics
