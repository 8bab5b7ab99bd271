import Domotics.Proofs.Engine.Plan
import Domotics.Proofs.Run.Call
import Domotics.Proofs.Run.Verdict

/-!
The faults with which a pass can break. Faults of the vocabulary of rules and rehearsals become outcomes;
what breaks a pass, a round or a tick is a fault of another kind, such as one of arithmetic with times.
-/

namespace Domotics

structure Result.NoDomainFault {α : Type} (x : Result α) : Prop where
  foreign : ∀ fault, x = .error fault → fault.isDomain = false

namespace Result

variable {α β : Type}

theorem noDomainFault_ok (a : α) : NoDomainFault (.ok a) := ⟨by simp⟩

theorem noDomainFault_misuse (cause : MisuseFault) : NoDomainFault (misuse cause : Result α) := by
  refine ⟨fun fault heq => ?_⟩
  cases heq
  cases cause <;> rfl

theorem noDomainFault_invalid (cause : InvalidFault) : NoDomainFault (invalid cause : Result α) := by
  refine ⟨fun fault heq => ?_⟩
  cases heq
  rfl

theorem NoDomainFault.error {fault : Fault} (h : NoDomainFault (.error fault : Result α)) :
    NoDomainFault (.error fault : Result β) :=
  ⟨fun fault heq => h.foreign fault (by cases heq; rfl)⟩

theorem NoDomainFault.bind {x : Result α} {f : α → Result β} (hx : NoDomainFault x)
    (hf : ∀ a, NoDomainFault (f a)) : NoDomainFault (x >>= f) := by
  cases x with
  | error fault => exact hx.error
  | ok a => exact hf a

theorem NoDomainFault.map {x : Result α} (f : α → β) (hx : NoDomainFault x) :
    NoDomainFault (x.map f) := by
  cases x with
  | error fault => exact hx.error
  | ok a => exact noDomainFault_ok _

theorem NoDomainFault.ite {p : Prop} [Decidable p] {x y : Result α} (hx : NoDomainFault x)
    (hy : NoDomainFault y) : NoDomainFault (if p then x else y) := by
  split
  · exact hx
  · exact hy

end Result

open Result

namespace Moment

variable (t u : Moment) (d : Duration)

theorem noDomainFault_check : NoDomainFault d.check :=
  .ite (noDomainFault_ok d) (noDomainFault_misuse _)

theorem noDomainFault_order : NoDomainFault (t.order u) := by
  rw [order]
  split
  · exact noDomainFault_ok _
  · exact noDomainFault_misuse _

theorem noDomainFault_since : NoDomainFault (t.since u) := by
  rw [since]
  split
  · exact noDomainFault_ok _
  · exact noDomainFault_misuse _

theorem noDomainFault_shift : NoDomainFault (t.shift d) := by
  rw [shift]
  split
  · exact noDomainFault_ok _
  · exact noDomainFault_misuse _

end Moment

section

variable (b : Bound) (t : Moment) (solar : SolarCalendar)

theorem Bound.noDomainFault_fixedOffset (isEnd : Bool) : NoDomainFault (b.fixedOffset isEnd) := by
  rw [Bound.fixedOffset]
  split
  · exact noDomainFault_ok _
  · exact .map _ (Moment.noDomainFault_check _)

theorem Bound.noDomainFault_resolve (day : Day) (offset : Option Int) (isEnd : Bool) :
    NoDomainFault (b.resolve day offset solar isEnd) := by
  refine .bind (b.noDomainFault_fixedOffset isEnd) fun known => ?_
  split
  · exact Moment.noDomainFault_shift ..
  · exact Moment.noDomainFault_shift ..

theorem Span.noDomainFault_covers (s : Span) : NoDomainFault (s.covers t solar) := by
  have hdayEnd : NoDomainFault ((Moment.startOf t.day t.offset).shift .day) :=
    Moment.noDomainFault_shift _ _
  refine .bind (s.start.noDomainFault_resolve ..) fun start => ?_
  refine .bind (s.finish.noDomainFault_resolve ..) fun finish => ?_
  refine .bind (finish.noDomainFault_order start) fun _ => .ite (noDomainFault_ok _) ?_
  refine .bind (start.noDomainFault_order (.startOf t.day t.offset)) fun _ =>
    .ite (noDomainFault_ok _) ?_
  refine hdayEnd.bind fun dayEnd => ?_
  refine .bind (finish.noDomainFault_order dayEnd) fun _ => .ite (noDomainFault_ok _) ?_
  refine .bind (Moment.noDomainFault_order ..) fun _ => .ite (noDomainFault_ok _) ?_
  exact .bind (Moment.noDomainFault_order ..) fun _ => noDomainFault_ok _

theorem Schedule.noDomainFault_anySpan (spans : List Span) :
    NoDomainFault (anySpan t solar spans) := by
  induction spans with
  | nil => exact noDomainFault_ok _
  | cons s rest ih => exact .bind (s.noDomainFault_covers t solar) fun _ => .ite (noDomainFault_ok _) ih

theorem Schedule.noDomainFault_anyEntry (entries : List ScheduleEntry) :
    NoDomainFault (anyEntry t solar entries) := by
  induction entries with
  | nil => exact noDomainFault_ok _
  | cons e rest ih =>
    exact .ite (.bind (noDomainFault_anySpan ..) fun _ => .ite (noDomainFault_ok _) ih) ih

theorem Schedule.noDomainFault_classify (s : Schedule) : NoDomainFault (s.classify t solar) :=
  .bind (noDomainFault_anyEntry ..) fun _ => .ite (noDomainFault_ok _) <|
    .bind (noDomainFault_anyEntry ..) fun _ => .ite (noDomainFault_ok _) (noDomainFault_ok _)

theorem Bound.noDomainFault_occurrenceFrom (weekday : Option Weekday) (day : Day) (count : Nat) :
    NoDomainFault (b.occurrenceFrom t solar weekday day count) := by
  induction count generalizing day with
  | zero => exact noDomainFault_invalid _
  | succ count ih =>
    refine .ite (noDomainFault_misuse _) (.ite (ih _) ?_)
    refine .bind (b.noDomainFault_resolve ..) fun candidate => ?_
    exact .bind (Moment.noDomainFault_order ..) fun _ => .ite (noDomainFault_ok _) (ih _)

end

namespace Retrigger

variable (r : Retrigger) (now : Moment) (solar : SolarCalendar)

theorem noDomainFault_due : NoDomainFault (r.due now) := by
  rw [due]
  split
  · exact noDomainFault_ok _
  · exact .bind (Moment.noDomainFault_order ..) fun _ => noDomainFault_ok _

theorem noDomainFault_mayFire : NoDomainFault (r.mayFire now) := by
  rw [mayFire]
  split
  · exact noDomainFault_ok _
  · exact .bind (Moment.noDomainFault_since ..) fun _ => noDomainFault_ok _

theorem noDomainFault_remaining : NoDomainFault (r.remaining now) := by
  rw [remaining]
  split
  · exact noDomainFault_ok _
  · refine .bind (Moment.noDomainFault_since ..) fun _ => ?_
    exact .bind (Moment.noDomainFault_check _) fun _ => noDomainFault_ok _

theorem noDomainFault_base : NoDomainFault (r.base now) := by
  rw [base]
  split
  · exact noDomainFault_ok _
  · exact .bind (Moment.noDomainFault_order ..) fun _ => noDomainFault_ok _

theorem noDomainFault_tickOf (spec : Periodic) : NoDomainFault (r.tickOf now solar spec) := by
  cases spec with
  | every interval =>
    refine .bind (r.noDomainFault_base now) fun base => ?_
    refine .bind (Moment.noDomainFault_shift ..) fun first => ?_
    refine .bind (Moment.noDomainFault_order ..) fun _ => .ite (noDomainFault_ok _) ?_
    exact Moment.noDomainFault_shift ..
  | daily bound weekday => exact bound.noDomainFault_occurrenceFrom ..

theorem noDomainFault_mapM (specs : List Periodic) :
    NoDomainFault (specs.mapM (r.tickOf now solar)) := by
  induction specs with
  | nil => exact noDomainFault_ok _
  | cons spec rest ih =>
    rw [List.mapM_cons]
    exact .bind (r.noDomainFault_tickOf ..) fun _ => .bind ih fun _ => noDomainFault_ok _

theorem noDomainFault_foldlM (first : Moment) (rest : List Moment) :
    NoDomainFault (rest.foldlM earlier first) := by
  induction rest generalizing first with
  | nil => exact noDomainFault_ok _
  | cons next rest ih =>
    rw [List.foldlM_cons]
    exact .bind (.bind (Moment.noDomainFault_order ..) fun _ => noDomainFault_ok _) fun best => ih best

theorem noDomainFault_earliest (ticks : List Moment) : NoDomainFault (earliest ticks) := by
  cases ticks with
  | nil => exact noDomainFault_ok _
  | cons first rest =>
    rw [earliest_cons]
    exact .map _ (noDomainFault_foldlM first rest)

theorem noDomainFault_computeNext : NoDomainFault (r.computeNext now solar) :=
  .bind (r.noDomainFault_mapM ..) fun _ => noDomainFault_earliest _

theorem noDomainFault_plan : NoDomainFault (r.plan now solar).2 := by
  have hnext := r.noDomainFault_computeNext now solar
  rw [plan]
  cases h : r.computeNext now solar with
  | ok next => exact noDomainFault_ok _
  | error fault =>
    rw [h] at hnext
    exact hnext.error

theorem noDomainFault_recordFired : NoDomainFault (r.recordFired now solar).2 := by
  rw [recordFired]
  dsimp only
  split
  · exact noDomainFault_plan ..
  · exact noDomainFault_ok _

end Retrigger

namespace Machine

variable (m : Machine) (s : Situation) (absorbed : List Fault)

theorem noDomainFault_of_not_isDomain {fault : Fault} (h : ¬ fault.isDomain = true) :
    NoDomainFault (.error fault : Result Judgement) :=
  ⟨fun _ heq => by cases heq; simpa using h⟩

theorem noDomainFault_judgeTriggers : NoDomainFault (m.judgeTriggers s absorbed) := by
  rw [judgeTriggers]
  refine .ite (noDomainFault_ok _) ?_
  dsimp only
  split
  · exact noDomainFault_ok _
  · exact noDomainFault_ok _
  · split
    · exact noDomainFault_ok _
    · exact noDomainFault_of_not_isDomain ‹_›

theorem noDomainFault_judgeCooldown : NoDomainFault (m.judgeCooldown s absorbed) :=
  .bind (m.retrigger.noDomainFault_mayFire s.now) fun _ =>
    .ite (m.noDomainFault_judgeTriggers s absorbed) <|
      .bind (m.retrigger.noDomainFault_remaining s.now) fun _ => noDomainFault_ok _

theorem noDomainFault_judgeSchedule : NoDomainFault (m.judgeSchedule s absorbed) := by
  refine .bind (Schedule.noDomainFault_classify ..) fun window => ?_
  cases window with
  | forbidden => exact noDomainFault_ok _
  | neutral => exact .ite (m.noDomainFault_judgeCooldown s absorbed) (noDomainFault_ok _)
  | allowed => exact m.noDomainFault_judgeCooldown s absorbed

theorem noDomainFault_judge : NoDomainFault (m.judge s) := by
  rw [judge]
  split
  · exact noDomainFault_ok _
  · exact m.noDomainFault_judgeSchedule s _
  · split
    · exact noDomainFault_ok _
    · exact noDomainFault_of_not_isDomain ‹_›

variable (aliases : AliasRegistry) (w : World) (e : Event) (now : Moment)

theorem noDomainFault_handle : NoDomainFault (m.handle aliases w e now).result := by
  have hhandled := m.handled_handle aliases w e now
  generalize m.handle aliases w e now = pass at hhandled ⊢
  cases hhandled with
  | broke hverdict =>
    have hjudge : NoDomainFault (m.verdict aliases w e now) := noDomainFault_judge ..
    rw [hverdict] at hjudge
    exact hjudge.error
  | rested => exact noDomainFault_ok _
  | fired => exact noDomainFault_ok _
  | @unplanned _ after _ _ _ _ _ hrecord =>
    have hplan := m.retrigger.noDomainFault_recordFired now after.platform.solar
    rw [hrecord] at hplan
    exact hplan.error

theorem noDomainFault_handleTick : NoDomainFault (m.handleTick aliases w now).result := by
  have hpass := m.noDomainFault_handle aliases w (.tick now) now
  rw [handleTick]
  split
  · rename_i hdue
    have hnone := m.retrigger.noDomainFault_due now
    rw [hdue] at hnone
    exact hnone.error
  · exact noDomainFault_ok _
  · dsimp only
    generalize m.handle aliases w (.tick now) now = pass at hpass ⊢
    split
    · rename_i hresult
      rw [hresult] at hpass
      exact hpass.error
    · split
      · exact noDomainFault_ok _
      · have hplan := pass.machine.retrigger.noDomainFault_plan now w.platform.solar
        rw [← Retrigger.consume] at hplan
        split
        · exact noDomainFault_ok _
        · rename_i hconsumed
          rw [hconsumed] at hplan
          exact hplan.error

end Machine

namespace World

variable (round : Round) (w : World) (report : Report)

theorem noDomainFault_passAll (e : Event) (index : Nat) (machines : List Machine) :
    NoDomainFault (passAll round e index machines w report).2 := by
  induction machines generalizing index w report with
  | nil => exact noDomainFault_ok _
  | cons m rest ih =>
    have hpass := m.noDomainFault_handle round.aliases w e round.now
    rw [passAll]
    split
    · exact ih ..
    · rename_i hresult
      rw [hresult] at hpass
      exact hpass.error

theorem noDomainFault_tickAll (index : Nat) (machines : List Machine) :
    NoDomainFault (tickAll round index machines w report).2 := by
  induction machines generalizing index w report with
  | nil => exact noDomainFault_ok _
  | cons m rest ih =>
    have hpass := m.noDomainFault_handleTick round.aliases w round.now
    rw [tickAll]
    split
    · exact ih ..
    · exact ih ..
    · rename_i hresult
      rw [hresult] at hpass
      exact hpass.error

end World
end Domotics
