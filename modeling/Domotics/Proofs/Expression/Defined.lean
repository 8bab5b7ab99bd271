import Domotics.Proofs.Expression.Tolerance
import Domotics.Proofs.Result
import Domotics.Proofs.Time.Order

/-!
When rules can be evaluated. If all targets are texts, no alias stands for something that cannot be looked up, and
the bounds have their times of the day within the calendar, then a schedule always says something about the present,
and an expression has a truth value or fails with the fault of a target.
-/

namespace Domotics

namespace Result

variable {α β : Type} {x y : Result α} {f : α → Result β}

def Succeeds (x : Result α) : Prop := ∃ a, x = .ok a

theorem succeeds_ok (a : α) : Succeeds (.ok a) := ⟨a, rfl⟩

theorem Succeeds.bind (hx : Succeeds x) (hf : ∀ a, x = .ok a → Succeeds (f a)) : Succeeds (x >>= f) := by
  obtain ⟨a, rfl⟩ := hx
  exact hf a rfl

theorem Succeeds.ite {p : Prop} [Decidable p] (hx : Succeeds x) (hy : Succeeds y) :
    Succeeds (if p then x else y) := by
  split
  · exact hx
  · exact hy

/-- A computation fails with nothing but a fault of a target. -/
structure TargetFaultsOnly (x : Result α) : Prop where
  absorbable : ∀ fault, x = .error fault → fault.isAbsorbable = true

theorem Succeeds.targetFaultsOnly (h : Succeeds x) : TargetFaultsOnly x := by
  obtain ⟨a, rfl⟩ := h
  exact ⟨by simp⟩

end Result

open Result

/-! ### Times of the day -/

namespace Moment

variable {t u : Moment}

theorem succeeds_order (h : t.Comparable u) : Succeeds (t.order u) :=
  ⟨_, order_eq_ok_iff.mpr ⟨h, rfl⟩⟩

theorem succeeds_order_map (h : t.Comparable u) (f : Ordering → Bool) :
    Succeeds (do return f (← t.order u) : Result Bool) :=
  (succeeds_order h).bind fun o _ => succeeds_ok (f o)

end Moment

/-- The time of a bound on a day, as if the calendar had no limits. -/
def Bound.timeOn (b : Bound) (day : Day) (offset : Option Int) (solar : SolarCalendar) (isEnd : Bool) : Moment :=
  match b.fixed isEnd with
  | some d => (Moment.startOf day offset).plus d
  | none =>
    let a := match b.base with
      | .anchor a => a
      | .clock _ => .midnight
    (solar.time day a).plus b.offset

theorem Bound.resolve_eq_ok {b : Bound} {day : Nat} {offset : Option Int} {solar : SolarCalendar} {isEnd : Bool}
    (hday : day < Day.count) (h : (b.timeOn day offset solar isEnd).InCalendar) :
    b.resolve day offset solar isEnd = .ok (b.timeOn day offset solar isEnd) := by
  rw [timeOn] at h ⊢
  rw [resolve, fixedOffset]
  cases hfixed : b.fixed isEnd with
  | none =>
    simp only [hfixed] at h
    rw [ok_bind]
    exact Moment.shift_eq_ok_iff.mpr ⟨rfl, h⟩
  | some d =>
    simp only [hfixed] at h
    have hrepresentable : d.Representable := by
      simp only [Moment.InCalendar, Moment.startOf, Moment.onDay, Moment.plus_ticks, Duration.Representable,
        Duration.wholeDays, Duration.maxDays, Day.count, Duration.perDay, Duration.perSecond] at *
      omega
    simp only [Duration.check, if_pos hrepresentable, Except.map, ok_bind]
    exact Moment.shift_eq_ok_iff.mpr ⟨rfl, h⟩

/-- A time that can be compared with bounds, each of which opens or closes a span: it lies before the last day of the
calendar, the sun keeps to the same kind of time, and the bounds have their times of that day in the calendar. -/
structure Moment.Admits (t : Moment) (solar : SolarCalendar) (bounds : List (Bound × Bool)) : Prop where
  inCalendar : t.InCalendar
  dayEnd : (t.plus .day).InCalendar
  comparable : ∀ a, (solar.time t.day a).Comparable t
  bounds : ∀ x ∈ bounds, (x.1.timeOn t.day t.offset solar x.2).InCalendar

namespace Moment.Admits

variable {t : Moment} {solar : SolarCalendar} {bounds some : List (Bound × Bool)}

theorem mono (h : t.Admits solar bounds) (hsome : ∀ x ∈ some, x ∈ bounds) : t.Admits solar some :=
  ⟨h.inCalendar, h.dayEnd, h.comparable, fun x hx => h.bounds x (hsome x hx)⟩

theorem resolve (h : t.Admits solar bounds) {b : Bound} {isEnd : Bool} (hb : (b, isEnd) ∈ bounds) :
    ∃ u, b.resolve t.day t.offset solar isEnd = .ok u ∧ u.Comparable t := by
  have hday : (t.ticks / Duration.perDay).toNat < Day.count := by
    have hticks := h.inCalendar
    simp only [InCalendar, Day.count, Duration.perDay, Duration.perSecond] at hticks ⊢
    omega
  refine ⟨_, Bound.resolve_eq_ok hday (h.bounds _ hb), ?_⟩
  rw [Bound.timeOn]
  split
  · rfl
  · exact h.comparable _

end Moment.Admits

theorem succeeds_withinTimeOfDay {t : Moment} {solar : SolarCalendar} {bounds : List (Bound × Bool)}
    {after before : Option Bound} (h : t.Admits solar bounds) (hafter : ∀ b ∈ after, (b, false) ∈ bounds)
    (hbefore : ∀ b ∈ before, (b, true) ∈ bounds) : Succeeds (withinTimeOfDay t after before solar) := by
  -- a bound leaves the comparison with a moment that can be compared with the present
  have hbound {b : Bound} {isEnd : Bool} (hb : (b, isEnd) ∈ bounds) {rest : Option Moment → Result Bool}
      (hrest : ∀ u : Moment, u.Comparable t → Succeeds (rest (some u))) :
      Succeeds (some <$> b.resolve t.day t.offset solar isEnd >>= rest) := by
    obtain ⟨u, hu, hcomparable⟩ := h.resolve hb
    rw [bind_map_left, hu]
    exact hrest u hcomparable
  unfold withinTimeOfDay
  cases after with
  | none =>
    cases before with
    | none => exact succeeds_ok true
    | some b => exact hbound (hbefore b rfl) fun f hf => Moment.succeeds_order_map hf.symm _
  | some a =>
    refine hbound (hafter a rfl) fun s hs => ?_
    cases before with
    | none => exact Moment.succeeds_order_map hs.symm _
    | some b =>
      refine hbound (hbefore b rfl) fun f hf => ?_
      refine (Moment.succeeds_order (hs.trans hf.symm)).bind fun _ _ => .ite ?_ ?_
      · exact (Moment.succeeds_order hs.symm).bind fun _ _ =>
          .ite (Moment.succeeds_order_map hf.symm _) (succeeds_ok true)
      · exact (Moment.succeeds_order hs).bind fun _ _ =>
          .ite (succeeds_ok false) (Moment.succeeds_order_map hf.symm _)

/-! ### Schedules -/

def Span.bounds (s : Span) : List (Bound × Bool) := [(s.start, false), (s.finish, true)]

def ScheduleEntry.boundsOf (entries : List ScheduleEntry) : List (Bound × Bool) :=
  entries.flatMap fun e => e.effectiveSpans.flatMap (·.bounds)

def Schedule.bounds (s : Schedule) : List (Bound × Bool) :=
  ScheduleEntry.boundsOf s.enabled ++ ScheduleEntry.boundsOf s.forbidden

section

variable {t : Moment} {solar : SolarCalendar}

theorem Span.succeeds_covers {s : Span} (h : t.Admits solar s.bounds) :
    Succeeds (s.covers t solar) := by
  have hdayEnd : (Moment.startOf t.day t.offset).shift .day = .ok ((Moment.startOf t.day t.offset).plus .day) := by
    have hticks := h.inCalendar
    have hnext := h.dayEnd
    refine Moment.shift_eq_ok_iff.mpr ⟨rfl, ?_⟩
    simp only [Moment.InCalendar, Moment.startOf, Moment.onDay, Moment.plus_ticks, Moment.day, Duration.day,
      Day.count, Duration.perDay, Duration.perSecond] at *
    omega
  obtain ⟨start, hstart, hcomparable⟩ := h.resolve (show (s.start, false) ∈ s.bounds by simp [Span.bounds])
  obtain ⟨finish, hfinish, hcomparable'⟩ := h.resolve (show (s.finish, true) ∈ s.bounds by simp [Span.bounds])
  rw [Span.covers, hstart, hfinish]
  simp only [ok_bind, hdayEnd]
  refine .bind (Moment.succeeds_order (hcomparable'.trans hcomparable.symm)) fun _ _ => .ite (succeeds_ok _) ?_
  refine .bind (Moment.succeeds_order hcomparable) fun _ _ => .ite (succeeds_ok _) ?_
  refine .bind (Moment.succeeds_order hcomparable') fun _ _ => .ite (succeeds_ok _) ?_
  refine .bind (Moment.succeeds_order hcomparable) fun _ _ => .ite (succeeds_ok _) ?_
  exact Moment.succeeds_order_map hcomparable'.symm _

theorem Schedule.succeeds_anySpan {spans : List Span} (h : t.Admits solar (spans.flatMap (·.bounds))) :
    Succeeds (anySpan t solar spans) := by
  induction spans with
  | nil => exact succeeds_ok _
  | cons s rest ih =>
    have hfirst : t.Admits solar s.bounds := h.mono fun x hx => List.mem_append_left _ hx
    have hrest : t.Admits solar (rest.flatMap (·.bounds)) := h.mono fun x hx => List.mem_append_right _ hx
    exact (Span.succeeds_covers hfirst).bind fun _ _ => .ite (succeeds_ok _) (ih hrest)

theorem Schedule.succeeds_anyEntry {entries : List ScheduleEntry}
    (h : t.Admits solar (ScheduleEntry.boundsOf entries)) : Succeeds (anyEntry t solar entries) := by
  induction entries with
  | nil => exact succeeds_ok _
  | cons e rest ih =>
    have hfirst : t.Admits solar (e.effectiveSpans.flatMap (·.bounds)) :=
      h.mono fun x hx => List.mem_append_left _ hx
    have hrest : t.Admits solar (ScheduleEntry.boundsOf rest) := h.mono fun x hx => List.mem_append_right _ hx
    exact .ite (.bind (succeeds_anySpan hfirst) fun _ _ => .ite (succeeds_ok _) (ih hrest)) (ih hrest)

/-- A schedule says something about such a time. -/
theorem Schedule.succeeds_classify {s : Schedule} (h : t.Admits solar s.bounds) : Succeeds (s.classify t solar) := by
  have henabled : t.Admits solar (ScheduleEntry.boundsOf s.enabled) := h.mono fun x hx => List.mem_append_left _ hx
  have hforbidden : t.Admits solar (ScheduleEntry.boundsOf s.forbidden) :=
    h.mono fun x hx => List.mem_append_right _ hx
  exact .bind (succeeds_anyEntry hforbidden) fun _ _ => .ite (succeeds_ok _) <|
    .bind (succeeds_anyEntry henabled) fun _ _ => .ite (succeeds_ok _) (succeeds_ok _)

end

/-! ### Expressions -/

/-- Every alias stands for something that can be looked up. -/
def AliasRegistry.Searchable (r : AliasRegistry) : Prop := ∀ b ∈ r.bindings, b.2.id.isScalar = true

namespace Resolution

theorem succeeds_ofTarget {aliases : AliasRegistry} (haliases : aliases.Searchable) (c : Catalog)
    (name : String) (type : Option ValueType) : Succeeds (ofTarget aliases c (.text name) type) := by
  rw [ofTarget, ofText]
  cases hlookup : aliases.lookup? name with
  | none => exact succeeds_ok _
  | some target =>
    have hscalar : target.id.isScalar = true := by
      rw [AliasRegistry.lookup?, Option.map_eq_some_iff] at hlookup
      obtain ⟨b, hfind, rfl⟩ := hlookup
      exact haliases b (List.mem_of_find?_eq_some hfind)
    dsimp only
    rw [byAlias]
    split
    · split
      · exact succeeds_ok _
      · exact succeeds_ok _
    · rw [if_pos hscalar]
      exact succeeds_ok _

end Resolution

theorem Predicate.targetFaultsOnly_evaluate {p : Predicate} {s : Situation}
    (h : Succeeds (Resolution.ofTarget s.aliases s.catalog p.target p.type)) :
    TargetFaultsOnly (p.evaluate s).result := by
  obtain ⟨r, hr⟩ := h
  rw [evaluate]
  cases hlocate : p.locate s with
  | ok d => exact (succeeds_ok _).targetFaultsOnly
  | error f =>
    dsimp only
    split_ifs
    · exact (succeeds_ok _).targetFaultsOnly
    · refine ⟨fun fault heq => ?_⟩
      cases heq
      exact isAbsorbable_of_locate hr hlocate

namespace Verdict

theorem targetFaultsOnly_orElse {first rest : Verdict} (hfirst : TargetFaultsOnly first.result)
    (hrest : TargetFaultsOnly rest.result) (decisive : Bool) :
    TargetFaultsOnly (first.orElse decisive rest).result := by
  rw [orElse]
  split
  · split_ifs
    · exact hfirst
    · exact hrest
  · exact hfirst

theorem targetFaultsOnly_opposite {v : Verdict} (h : TargetFaultsOnly v.result) :
    TargetFaultsOnly v.opposite.result := by
  obtain ⟨result, absorbed⟩ := v
  cases result with
  | ok b => exact (succeeds_ok _).targetFaultsOnly
  | error f => exact ⟨fun fault heq => h.absorbable fault heq⟩

end Verdict

namespace Expression

mutual

def predicates : Expression → List Predicate
  | all children => predicatesOf children
  | any children => predicatesOf children
  | negation child => predicates child
  | time _ _ => []
  | device p => [p]
  | foreign _ => []

def predicatesOf : List Expression → List Predicate
  | [] => []
  | e :: rest => predicates e ++ predicatesOf rest

end

mutual

/-- The bounds with which an expression compares the time of day. The one before which the time has to be is read as
an end. -/
def bounds : Expression → List (Bound × Bool)
  | all children => boundsOf children
  | any children => boundsOf children
  | negation child => bounds child
  | time after before => after.toList.map (·, false) ++ before.toList.map (·, true)
  | device _ => []
  | foreign _ => []

def boundsOf : List Expression → List (Bound × Bool)
  | [] => []
  | e :: rest => bounds e ++ boundsOf rest

end

variable {s : Situation}

mutual

/-- An expression over such predicates, with such bounds, by recursion on it. -/
theorem targetFaultsOnly_evaluate (haliases : s.aliases.Searchable) (e : Expression)
    (htargets : ∀ p ∈ e.predicates, ∃ name, p.target = .text name)
    (htime : s.now.Admits s.solar e.bounds) : TargetFaultsOnly (evaluate s e).result := by
  cases e with
  | all children => exact targetFaultsOnly_evaluateAll haliases children htargets htime
  | any children => exact targetFaultsOnly_evaluateAny haliases children htargets htime
  | negation child =>
    exact Verdict.targetFaultsOnly_opposite (targetFaultsOnly_evaluate haliases child htargets htime)
  | time after before =>
    refine (succeeds_withinTimeOfDay htime ?_ ?_).targetFaultsOnly
    · exact fun b hb => by simp [bounds, Option.mem_def.mp hb]
    · exact fun b hb => by simp [bounds, Option.mem_def.mp hb]
  | device p =>
    obtain ⟨name, hname⟩ := htargets p (List.mem_singleton_self p)
    refine p.targetFaultsOnly_evaluate ?_
    rw [hname]
    exact Resolution.succeeds_ofTarget haliases s.catalog name p.type
  | foreign text => exact (succeeds_ok _).targetFaultsOnly

theorem targetFaultsOnly_evaluateAll (haliases : s.aliases.Searchable) (es : List Expression)
    (htargets : ∀ p ∈ predicatesOf es, ∃ name, p.target = .text name)
    (htime : s.now.Admits s.solar (boundsOf es)) : TargetFaultsOnly (evaluateAll s es).result := by
  cases es with
  | nil => exact (succeeds_ok _).targetFaultsOnly
  | cons e rest =>
    rw [predicatesOf, List.forall_mem_append] at htargets
    have hfirst := targetFaultsOnly_evaluate haliases e htargets.1 (htime.mono fun x hx => List.mem_append_left _ hx)
    have hrest :=
      targetFaultsOnly_evaluateAll haliases rest htargets.2 (htime.mono fun x hx => List.mem_append_right _ hx)
    exact Verdict.targetFaultsOnly_orElse hfirst hrest false

theorem targetFaultsOnly_evaluateAny (haliases : s.aliases.Searchable) (es : List Expression)
    (htargets : ∀ p ∈ predicatesOf es, ∃ name, p.target = .text name)
    (htime : s.now.Admits s.solar (boundsOf es)) : TargetFaultsOnly (evaluateAny s es).result := by
  cases es with
  | nil => exact (succeeds_ok _).targetFaultsOnly
  | cons e rest =>
    rw [predicatesOf, List.forall_mem_append] at htargets
    have hfirst := targetFaultsOnly_evaluate haliases e htargets.1 (htime.mono fun x hx => List.mem_append_left _ hx)
    have hrest :=
      targetFaultsOnly_evaluateAny haliases rest htargets.2 (htime.mono fun x hx => List.mem_append_right _ hx)
    exact Verdict.targetFaultsOnly_orElse hfirst hrest true

end

end Expression
end Domotics
