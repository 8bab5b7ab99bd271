import Domotics.Proofs.Result
import Domotics.Proofs.Run.Call
import Domotics.Proofs.Time.Order
import Domotics.Rehearsal

/-!
How time passes in a rehearsal. A delay visits the wake-up times that fall into it, one after the other,
and sets the clock to its end at last; how much fuel it is given plays no part once it comes to that end.
-/

namespace Domotics

namespace World

variable {w : World} {fuel fuel' : Nat}

theorem drain_mono (hle : fuel ≤ fuel') {report : Report}
    (h : (drain fuel w report).2 ≠ .unsettled) : drain fuel' w report = drain fuel w report := by
  induction fuel generalizing w report fuel' with
  | zero => exact absurd rfl h
  | succ fuel ih =>
    obtain ⟨more, rfl⟩ := Nat.exists_eq_succ_of_ne_zero (by omega : fuel' ≠ 0)
    cases hpending : w.engine.pending with
    | nil => rw [drain_of_empty _ report hpending, drain_of_empty _ report hpending]
    | cons e rest =>
      rw [drain_of_cons _ report hpending] at h ⊢
      rw [drain_of_cons _ report hpending]
      split at h
      · exact ih (Nat.le_of_succ_le_succ hle) h
      · rfl

theorem tick_mono (hle : fuel ≤ fuel') {now : Option Moment}
    (h : (w.tick fuel now).2 ≠ .unsettled) : w.tick fuel' now = w.tick fuel now := by
  cases hdraining : w.engine.draining with
  | true => rw [tick, tick, if_pos hdraining, if_pos hdraining]
  | false =>
    rw [tick_of_idle fuel now hdraining] at h ⊢
    rw [tick_of_idle fuel' now hdraining]
    split at h
    · rfl
    · next report _ => rw [drain_mono hle h]

end World

theorem Service.tick_mono {s : Service} {fuel fuel' : Nat} (hle : fuel ≤ fuel')
    {now : Option Moment} (h : (s.tick fuel now).2 ≠ .unsettled) :
    s.tick fuel' now = s.tick fuel now := by
  rw [tick] at h ⊢
  rw [tick]
  split at h
  · rw [if_pos ‹_›, if_pos ‹_›]
  · rw [if_neg ‹_›, if_neg ‹_›, World.tick_mono hle]
    intro hunsettled
    apply h
    rcases htick : s.world.tick fuel now with ⟨next, report | fault | _⟩
    all_goals simp_all

namespace Rehearsal

def atTime (r : Rehearsal) (m : Moment) : Rehearsal :=
  { r with clock := ⟨m⟩ }.withWorld
    { r.service.world with platform := { r.service.world.platform with now := m } }

@[simp] theorem atTime_clock (r : Rehearsal) (m : Moment) : (r.atTime m).clock.now = m := rfl

@[simp] theorem atTime_now (r : Rehearsal) (m : Moment) :
    (r.atTime m).service.world.platform.now = m := rfl

@[simp] theorem atTime_atTime (r : Rehearsal) (m n : Moment) : (r.atTime m).atTime n = r.atTime n := rfl

@[simp] theorem nextWakeup_atTime (r : Rehearsal) (m : Moment) :
    (r.atTime m).service.nextWakeup = r.service.nextWakeup := rfl

variable {r r' : Rehearsal} {m finish : Moment} {wakeup : Option Moment} {ticks : List Moment}
  {fuel count : Nat}

theorem setTime_eq_ok_iff : r.setTime m = .ok r' ↔ r.clock.now.NotAfter m ∧ r' = r.atTime m := by
  rw [setTime, VirtualClock.moveTo]
  cases horder : m.order r.clock.now with
  | error fault =>
    have hnot : ¬ r.clock.now.NotAfter m := by
      intro h
      rw [Moment.order_eq_ok_iff.mpr ⟨h.1.symm, rfl⟩] at horder
      cases horder
    simp [bind, Except.bind, hnot]
  | ok o =>
    have hcomparable := (Moment.order_eq_ok_iff.mp horder).1
    by_cases hlt : o = .lt
    · subst hlt
      simp [bind, Except.bind, (Moment.order_eq_lt_iff.mp horder).not_notAfter]
    · have hle : r.clock.now.NotAfter m := by
        rcases Moment.before_or_notAfter hcomparable with hbefore | hle
        · rw [Moment.order_eq_lt_iff.mpr hbefore] at horder
          cases horder
          exact absurd rfl hlt
        · exact hle
      simp [bind, Except.bind, pure, Except.pure, hlt, hle, atTime, withWorld, eq_comm]

/-- The ways in which a rehearsal waits up to a time: it arrives there, if no wake-up time comes before,
or it goes on after the first of them has been delivered, on which the clock stands meanwhile, and
which is followed by a later one or by none. -/
inductive Waits (finish : Moment) : Rehearsal → List Moment → Rehearsal → Prop where
  | arrive {r : Rehearsal} {wakeup : Option Moment} (hwakeup : r.service.nextWakeup = .ok wakeup)
      (hlater : ∀ t ∈ wakeup, finish.Before t) (hclock : r.clock.now.NotAfter finish) :
      Waits finish r [] (r.atTime finish)
  | wake {r r' : Rehearsal} {t : Moment} {ticks : List Moment} {fuel : Nat} {service : Service}
      {report : Report} {next : Option Moment} (hwakeup : r.service.nextWakeup = .ok (some t))
      (hfinish : t.NotAfter finish) (hclock : r.clock.now.NotAfter t)
      (htick : (r.atTime t).service.tick fuel (some t) = (service, .returned report))
      (hnext : service.nextWakeup = .ok next) (hforward : ∀ u ∈ next, t.Before u)
      (rest : Waits finish { r.atTime t with service } ticks r') : Waits finish r (t :: ticks) r'

theorem Waits.clock (h : Waits finish r ticks r') : r'.clock.now = finish := by
  induction h with
  | arrive => rfl
  | wake _ _ _ _ _ _ _ ih => exact ih

/-- What one round of a wait comes to: the rehearsal arrives at the end; it refuses to wait, as the next
wake-up cannot be reached; a wake-up is delivered that goes on forever, or after which the wait cannot go on;
or the wait goes on with a later wake-up or none. -/
inductive WaitRound (fuel : Nat) (finish : Moment) (count : Nat) (r : Rehearsal) :
    Option Moment → Rehearsal × Ending Unit → Prop where
  | arrived {wakeup : Option Moment} (hlater : ∀ t ∈ wakeup, finish.Before t)
      (hclock : r.clock.now.NotAfter finish) : WaitRound fuel finish count r wakeup (r.atTime finish, .returned ())
  | refused {wakeup : Option Moment} (fault : Fault)
      (hnever : ∀ t ∈ wakeup, t.NotAfter finish → ¬ r.clock.now.NotAfter t) :
      WaitRound fuel finish count r wakeup (r, .raised fault)
  | unsettled {t : Moment} {service : Service} (hfinish : t.NotAfter finish)
      (htick : (r.atTime t).service.tick fuel (some t) = (service, .unsettled)) :
      WaitRound fuel finish count r (some t) ({ r.atTime t with service }, .unsettled)
  | broken {t : Moment} {service : Service} {ending : Ending Report} (fault : Fault) (hfinish : t.NotAfter finish)
      (htick : (r.atTime t).service.tick fuel (some t) = (service, ending)) :
      WaitRound fuel finish count r (some t) ({ r.atTime t with service }, .raised fault)
  | delivered {t : Moment} {service : Service} {report : Report} {next : Option Moment}
      (hfinish : t.NotAfter finish) (hclock : r.clock.now.NotAfter t)
      (htick : (r.atTime t).service.tick fuel (some t) = (service, .returned report))
      (hnext : service.nextWakeup = .ok next) (hforward : ∀ u ∈ next, t.Before u) :
      WaitRound fuel finish count r (some t) (wait fuel finish count { r.atTime t with service } next)

theorem wait_of_later (hlater : ∀ t ∈ wakeup, finish.Before t) (hclock : r.clock.now.NotAfter finish) :
    wait fuel finish (count + 1) r wakeup = (r.atTime finish, .returned ()) := by
  have hset := setTime_eq_ok_iff.mpr ⟨hclock, rfl⟩
  cases wakeup with
  | none => simp [wait, hset]
  | some t => simp [wait, Moment.order_eq_gt_iff.mpr (hlater t rfl), hset]

/-- A wait before whose end no wake-up comes arrives there, or refuses to. -/
theorem waitRound_of_later (hlater : ∀ t ∈ wakeup, finish.Before t) :
    WaitRound fuel finish count r wakeup (wait fuel finish (count + 1) r wakeup) := by
  cases hset : r.setTime finish with
  | ok r' =>
    have hclock := (setTime_eq_ok_iff.mp hset).1
    rw [wait_of_later hlater hclock]
    exact .arrived hlater hclock
  | error fault =>
    have hwait : wait fuel finish (count + 1) r wakeup = (r, .raised fault) := by
      cases wakeup with
      | none => simp [wait, hset]
      | some t => simp [wait, Moment.order_eq_gt_iff.mpr (hlater t rfl), hset]
    rw [hwait]
    exact .refused _ fun t ht hle => absurd hle (hlater t ht).not_notAfter

theorem waitRound_wait (fuel : Nat) (finish : Moment) (count : Nat) (r : Rehearsal) (wakeup : Option Moment) :
    WaitRound fuel finish count r wakeup (wait fuel finish (count + 1) r wakeup) := by
  by_cases hlater : ∀ t ∈ wakeup, finish.Before t
  · exact waitRound_of_later hlater
  cases wakeup with
  | none => exact absurd (by simp) hlater
  | some t =>
    rw [wait]
    split
    · rename_i horder
      refine .refused _ fun u hu hle => ?_
      cases hu
      obtain ⟨o, ho, -⟩ := Moment.order_ne_gt_iff.mpr hle
      cases horder.symm.trans ho
    · rename_i horder
      exact absurd (by simpa using Moment.order_eq_gt_iff.mp horder) hlater
    · rename_i o hne horder
      have hfinish := Moment.order_ne_gt_iff.mp ⟨o, horder, hne⟩
      split
      · rename_i hset
        refine .refused _ fun u hu _ hclock => ?_
        cases hu
        cases hset.symm.trans (setTime_eq_ok_iff.mpr ⟨hclock, rfl⟩)
      · rename_i hset
        obtain ⟨hclock, rfl⟩ := setTime_eq_ok_iff.mp hset
        split
        · rename_i htick
          exact .broken _ hfinish htick
        · rename_i htick
          exact .unsettled hfinish htick
        · rename_i service report htick
          dsimp only
          split
          · exact .broken _ hfinish htick
          · rename_i hnext
            exact .delivered hfinish hclock htick hnext (by simp)
          · rename_i next hnext
            split
            · exact .broken _ hfinish htick
            · rename_i hforward
              refine .delivered hfinish hclock htick hnext fun u hu => ?_
              cases hu
              exact Moment.order_eq_gt_iff.mp hforward
            · exact .broken _ hfinish htick

theorem waits_of_wait (hwakeup : r.service.nextWakeup = .ok wakeup)
    (h : wait fuel finish count r wakeup = (r', .returned ())) : ∃ ticks, Waits finish r ticks r' := by
  induction count generalizing r wakeup with
  | zero => cases h
  | succ count ih =>
    have hround := waitRound_wait fuel finish count r wakeup
    rw [h] at hround
    generalize hout : (r', Ending.returned ()) = out at hround
    cases hround with
    | arrived hlater hclock =>
      cases hout
      exact ⟨[], .arrive hwakeup hlater hclock⟩
    | refused fault _ => cases hout
    | unsettled _ _ => cases hout
    | broken fault _ _ => cases hout
    | @delivered t _ _ _ hfinish hclock htick hnext hforward =>
      obtain ⟨ticks, hrest⟩ := ih hnext hout.symm
      exact ⟨t :: ticks, .wake hwakeup hfinish hclock htick hnext hforward hrest⟩

section

variable {t : Moment} {service : Service}

theorem wait_of_returned {report : Report} {next : Option Moment} (hfinish : t.NotAfter finish)
    (hclock : r.clock.now.NotAfter t)
    (htick : (r.atTime t).service.tick fuel (some t) = (service, .returned report))
    (hnext : service.nextWakeup = .ok next) (hforward : ∀ u ∈ next, t.Before u) :
    wait fuel finish (count + 1) r (some t) =
      wait fuel finish count { r.atTime t with service } next := by
  obtain ⟨o, horder, hne⟩ := Moment.order_ne_gt_iff.mpr hfinish
  rw [wait, horder, setTime_eq_ok_iff.mpr ⟨hclock, rfl⟩]
  cases next with
  | none => cases o <;> simp_all
  | some u =>
    have hgt := Moment.order_eq_gt_iff.mpr (hforward u rfl)
    cases o <;> simp_all

end

theorem wait_of_waits (h : Waits finish r ticks r') : ∃ enough, ∀ fuel count wakeup,
    enough ≤ fuel → ticks.length < count → r.service.nextWakeup = .ok wakeup →
      wait fuel finish count r wakeup = (r', .returned ()) := by
  induction h with
  | @arrive r wakeup hwakeup hlater hclock =>
    refine ⟨0, fun fuel count wakeup' _ hcount hwakeup' => ?_⟩
    obtain ⟨count, rfl⟩ := Nat.exists_eq_succ_of_ne_zero (by omega : count ≠ 0)
    cases hwakeup.symm.trans hwakeup'
    exact wait_of_later hlater hclock
  | @wake r r' t ticks fuel₀ service report next hwakeup hfinish hclock htick hnext hforward _ ih =>
    obtain ⟨enough, ih⟩ := ih
    refine ⟨max enough fuel₀, fun fuel count wakeup' hfuel hcount hwakeup' => ?_⟩
    obtain ⟨count, rfl⟩ := Nat.exists_eq_succ_of_ne_zero (by omega : count ≠ 0)
    cases hwakeup.symm.trans hwakeup'
    have htick' : (r.atTime t).service.tick fuel (some t) = (service, .returned report) := by
      rw [Service.tick_mono (by omega : fuel₀ ≤ fuel) (by simp [htick]), htick]
    rw [wait_of_returned hfinish hclock htick' hnext hforward]
    exact ih fuel count next (by omega) (by simpa using hcount) hnext

section

variable {seconds : Document}

end

/-- With enough fuel a delay ends normally, in `r'`. -/
def DelaysTo (r : Rehearsal) (seconds : Document) (r' : Rehearsal) : Prop :=
  ∃ enough, ∀ fuel, enough ≤ fuel → r.delay fuel seconds = (r', .returned ())

theorem delay_eq_returned {seconds : Document}
    (h : r.delay fuel seconds = (r', .returned ())) : ∃ d finish ticks,
      delayOf seconds = .ok d ∧ r.clock.now.shift d = .ok finish ∧ Waits finish r ticks r' := by
  rw [delay] at h
  cases hd : delayOf seconds with
  | error fault => simp [hd, bind, Except.bind] at h
  | ok d =>
    cases hfinish : r.clock.now.shift d with
    | error fault => simp [hd, hfinish, bind, Except.bind] at h
    | ok finish =>
      cases hwakeup : r.service.nextWakeup with
      | error fault => simp [hd, hfinish, hwakeup, bind, Except.bind] at h
      | ok wakeup =>
        simp only [hd, hfinish, hwakeup, bind, Except.bind, pure, Except.pure] at h
        obtain ⟨ticks, hwaits⟩ := waits_of_wait hwakeup h
        exact ⟨d, finish, ticks, rfl, hfinish, hwaits⟩

theorem delaysTo_of_waits {seconds : Document} {d : Duration} (hd : delayOf seconds = .ok d)
    (hfinish : r.clock.now.shift d = .ok finish) (h : Waits finish r ticks r') :
    r.DelaysTo seconds r' := by
  obtain ⟨enough, hwait⟩ := wait_of_waits h
  obtain ⟨wakeup, hwakeup⟩ : ∃ wakeup, r.service.nextWakeup = .ok wakeup := by
    cases h with
    | arrive hwakeup => exact ⟨_, hwakeup⟩
    | wake hwakeup => exact ⟨_, hwakeup⟩
  refine ⟨max enough (ticks.length + 1), fun fuel hfuel => ?_⟩
  simp only [delay, hd, hfinish, hwakeup, bind, Except.bind, pure, Except.pure]
  exact hwait fuel fuel wakeup (by omega) (by omega) hwakeup

end Rehearsal
end Domotics
