import Domotics.Proofs.Rehearsal.Prompt
import Domotics.Proofs.Run.Heartbeat
import Domotics.Proofs.Time.Seconds

/-!
How often a rehearsal of a rule that waits for nothing but an interval makes it fire: after delays of some
total length, once for the first beat and once more for every stride that fits into the rest, where a
stride is as many beats as it takes to cover the cooldown.
-/

namespace Domotics.Rehearsal

open World

/-- Delays, one after the other, that all end normally with enough fuel. -/
inductive DelaysAll : Rehearsal → List Document → Rehearsal → Prop where
  | done {r : Rehearsal} : DelaysAll r [] r
  | delay {r mid r' : Rehearsal} {seconds : Document} {rest : List Document}
      (h : r.DelaysTo seconds mid) (hrest : DelaysAll mid rest r') : DelaysAll r (seconds :: rest) r'

/-- A rehearsal of one rule that waits for the beats of an interval, so many of which have passed. -/
structure Beating (rule : Rule) (start : Moment) (e : Interval) (n fires : Nat) (r : Rehearsal) : Prop where
  running : r.service.running = true
  idle : r.service.world.Idle
  ahead : r.clock.now.Before (start.beat e (n + 1))
  lone : ∃ retrigger, retrigger.OnBeat start e rule.cooldown n fires ∧
    r.service.world.Lone rule retrigger r.clock.now fires

variable {rule : Rule} {start finish : Moment} {e : Interval} {n n' fires : Nat} {r r' : Rehearsal}

theorem Beating.nextWakeup (h : r.Beating rule start e n fires) :
    r.service.nextWakeup = .ok (some (start.beat e (n + 1))) := by
  obtain ⟨retrigger, hbeat, ⟨m, hmachines, -, hretrigger⟩, -, -⟩ := h.lone
  simp only [Service.nextWakeup, if_pos h.running, Engine.nextWakeup, hmachines, hretrigger,
    List.filterMap_cons, List.filterMap_nil, hbeat.nextTick]
  rfl

theorem Beating.atTime (h : r.Beating rule start e n fires) {t : Moment}
    (ht : t.Before (start.beat e (n + 1))) : (r.atTime t).Beating rule start e n fires where
  running := h.running
  idle := ⟨h.idle.atRest.stays (.quiet rfl rfl rfl rfl), h.idle.pending⟩
  ahead := ht
  lone := h.lone.imp fun _ ⟨hbeat, hlone⟩ => ⟨hbeat, hlone.machine, rfl, hlone.counted⟩

/-- What a rule and its interval have to be, and how far the calendar has to reach. -/
structure Steady (rule : Rule) (start : Moment) (e : Interval) (n : Nat) : Prop where
  beats : rule.Beats e
  name : rule.name.isScalar = true
  cooldown : .zero ≤ rule.cooldown ∧ rule.cooldown.Representable
  inCalendar : start.InCalendar
  room : (start.beat e (n + 1)).InCalendar

/-- The next beat is delivered with the clock on it. -/
theorem Beating.wake (hsteady : Steady rule start e n') (h : r.Beating rule start e n fires)
    (hlt : n < n') : ∃ fuel service report fires',
      (r.atTime (start.beat e (n + 1))).service.tick fuel (some (start.beat e (n + 1))) =
        (service, .returned report) ∧
      Beating rule start e (n + 1) fires' { r.atTime (start.beat e (n + 1)) with service } := by
  obtain ⟨retrigger, hbeat, hlone⟩ := h.lone
  have hidle : (r.atTime (start.beat e (n + 1))).service.world.Idle :=
    ⟨h.idle.atRest.stays (.quiet rfl rfl rfl rfl), h.idle.pending⟩
  have hset : (r.atTime (start.beat e (n + 1))).service.world.Lone rule retrigger (start.beat e (n + 1))
      fires := ⟨hlone.machine, rfl, hlone.counted⟩
  have hnext := Moment.inCalendar_beat hsteady.inCalendar hsteady.room
    (show n + 2 ≤ n' + 1 by omega)
  obtain ⟨fuel, w', report, retrigger', fires', htick, hidle', hbeat', hlone'⟩ :=
    hset.tick hsteady.beats hsteady.name hsteady.cooldown hsteady.inCalendar hnext hbeat
      hidle
  refine ⟨fuel, { (r.atTime (start.beat e (n + 1))).service with world := w'.report report }, report,
    fires', ?_, h.running, ⟨hidle'.atRest.stays (.quiet rfl rfl rfl rfl), hidle'.pending⟩, ?_,
    retrigger', hbeat', hlone'.machine, hlone'.now, hlone'.counted⟩
  · have hrunning : (r.atTime (start.beat e (n + 1))).service.running = true := h.running
    simp [Service.tick, hrunning, htick]
  · exact Moment.before_beat_iff.mpr (Nat.lt_succ_self _)

/-- A wait up to a time after so many beats delivers those of them that have not passed. -/
theorem Beating.waits (hsteady : Steady rule start e n') (h : r.Beating rule start e n fires)
    (hle : n ≤ n') (hclock : r.clock.now.NotAfter finish) (hpassed : (start.beat e n').NotAfter finish)
    (hahead : finish.Before (start.beat e (n' + 1))) :
    ∃ ticks r' fires', Waits finish r ticks r' ∧ r'.Beating rule start e n' fires' := by
  induction hdistance : n' - n generalizing r n fires with
  | zero =>
    obtain rfl : n = n' := by omega
    refine ⟨[], _, fires, .arrive h.nextWakeup (fun t ht => ?_) hclock, h.atTime hahead⟩
    cases ht
    exact hahead
  | succ distance ih =>
    obtain ⟨fuel, service, report, fires', htick, hnext⟩ := h.wake hsteady (by omega)
    have hreached : (start.beat e (n + 1)).NotAfter finish :=
      (Moment.notAfter_beat (by omega)).trans hpassed
    obtain ⟨ticks, r', fires'', hwaits, hbeating⟩ := ih hnext (by omega) hreached (by omega)
    refine ⟨_, r', fires'', .wake h.nextWakeup hreached h.ahead.notAfter htick hnext.nextWakeup ?_ hwaits,
      hbeating⟩
    intro t ht
    cases ht
    exact hnext.ahead

theorem Steady.earlier (h : Steady rule start e n') (hle : n ≤ n') : Steady rule start e n :=
  { h with room := Moment.inCalendar_beat h.inCalendar h.room (by omega) }

theorem exists_passed (e : Interval) {time : Int} (hzero : 0 ≤ time) :
    ∃ n : Nat, (n : Int) = time / e.micros ∧ n * e.micros ≤ time ∧ time < (n + 1) * e.micros := by
  obtain ⟨n, hn⟩ := Int.eq_ofNat_of_zero_le (Int.ediv_nonneg hzero (Int.le_of_lt e.positive))
  refine ⟨n, hn.symm, ?_, ?_⟩
  all_goals rw [← hn]
  · exact Int.ediv_mul_le _ (Int.ne_of_gt e.positive)
  · exact Int.lt_ediv_add_one_mul_self _ e.positive

theorem passed_le {time time' : Int} (hle : time ≤ time')
    (hlow : (n : Int) * e.micros ≤ time) (hhigh : time' < (n' + 1) * e.micros) : n ≤ n' := by
  have hlt : (n : Int) * e.micros < (n' + 1) * e.micros := by omega
  have := Int.lt_of_mul_lt_mul_right hlt (Int.le_of_lt e.positive)
  omega

theorem Beating.delay {seconds : Document} {d : Duration} {time : Int} (hd : delayOf seconds = .ok d)
    (hsteady : Steady rule start e n') (h : r.Beating rule start e n fires)
    (hclock : r.clock.now = start.plus ⟨time⟩) (hlow : n * e.micros ≤ time)
    (hlow' : n' * e.micros ≤ time + d.micros) (hhigh' : time + d.micros < (n' + 1) * e.micros) :
    ∃ mid fires', r.DelaysTo seconds mid ∧ mid.clock.now = start.plus ⟨time + d.micros⟩ ∧
      mid.Beating rule start e n' fires' := by
  have hnonneg := nonneg_of_delayOf hd
  have hlonger : time ≤ time + d.micros := by
    simp only [Duration.le_def, Duration.zero] at hnonneg
    omega
  have hzero : 0 ≤ (n : Int) * e.micros := Int.mul_nonneg (by omega) (Int.le_of_lt e.positive)
  have hend : r.clock.now.plus d = start.plus ⟨time + d.micros⟩ := by
    rw [hclock, Moment.plus_plus]
    rfl
  have hcalendar : (start.plus ⟨time + d.micros⟩).InCalendar := by
    refine Moment.inCalendar_of_between hsteady.inCalendar hsteady.room ?_ ?_
    all_goals simp only [Moment.plus_ticks, Moment.beat, Int.natCast_add_one]
    all_goals omega
  have hforward : r.clock.now.NotAfter (start.plus ⟨time + d.micros⟩) := hend ▸ Moment.notAfter_plus hnonneg
  obtain ⟨ticks, mid, fires', hwaits, hbeating⟩ :=
    h.waits hsteady (passed_le hlonger hlow hhigh') hforward
      ⟨rfl, by simp only [Moment.instant_beat, Moment.instant_plus]; omega⟩
      ⟨rfl, by simp only [Moment.instant_beat, Moment.instant_plus, Int.natCast_add_one]; omega⟩
  have hdelays := delaysTo_of_waits hd (Moment.shift_eq_ok_iff.mpr ⟨hend.symm, hend ▸ hcalendar⟩) hwaits
  exact ⟨mid, fires', hdelays, hwaits.clock, hbeating⟩

def total : List Duration → Int
  | [] => 0
  | d :: ds => d.micros + total ds

@[simp] theorem total_nil : total [] = 0 := rfl

@[simp] theorem total_cons (d : Duration) (ds : List Duration) :
    total (d :: ds) = d.micros + total ds := rfl

theorem total_nonneg {seconds : List Document} {ds : List Duration}
    (h : seconds.mapM delayOf = .ok ds) : 0 ≤ total ds := by
  induction seconds generalizing ds with
  | nil =>
    cases h
    exact Int.le_refl 0
  | cons first rest ih =>
    rw [List.mapM_cons] at h
    obtain ⟨d, hd, h⟩ := Result.bind_eq_ok.mp h
    obtain ⟨others, hothers, h⟩ := Result.bind_eq_ok.mp h
    cases h
    have hnonneg : 0 ≤ d.micros := nonneg_of_delayOf hd
    have hrest := ih hothers
    rw [total_cons]
    omega

theorem Beating.delays {seconds : List Document} {ds : List Duration} {time : Int}
    (hdelays : seconds.mapM delayOf = .ok ds) (hsteady : Steady rule start e n')
    (h : r.Beating rule start e n fires) (hclock : r.clock.now = start.plus ⟨time⟩)
    (hlow : n * e.micros ≤ time) (hhigh : time < (n + 1) * e.micros)
    (hlow' : n' * e.micros ≤ time + total ds) (hhigh' : time + total ds < (n' + 1) * e.micros) :
    ∃ r' fires', r.DelaysAll seconds r' ∧ r'.clock.now = start.plus ⟨time + total ds⟩ ∧
      r'.Beating rule start e n' fires' := by
  induction seconds generalizing ds r n fires time with
  | nil =>
    rw [List.mapM_nil] at hdelays
    cases hdelays
    rw [total_nil, Int.add_zero] at hlow' hhigh' ⊢
    obtain rfl : n = n' := Nat.le_antisymm (passed_le (Int.le_refl _) hlow hhigh')
      (passed_le (Int.le_refl _) hlow' hhigh)
    exact ⟨r, fires, .done, hclock, h⟩
  | cons first rest ih =>
    rw [List.mapM_cons] at hdelays
    obtain ⟨d, hd, hdelays⟩ := Result.bind_eq_ok.mp hdelays
    obtain ⟨others, hothers, hdelays⟩ := Result.bind_eq_ok.mp hdelays
    cases hdelays
    have hnonneg : 0 ≤ d.micros := nonneg_of_delayOf hd
    have hrest := total_nonneg hothers
    have hzero : 0 ≤ (n : Int) * e.micros := Int.mul_nonneg (by omega) (Int.le_of_lt e.positive)
    rw [total_cons, ← Int.add_assoc] at hlow' hhigh' ⊢
    obtain ⟨between, -, hbetween, hbetween'⟩ :=
      exists_passed e (show 0 ≤ time + d.micros by omega)
    have hle : between ≤ n' := passed_le (by omega) hbetween hhigh'
    obtain ⟨mid, fires', hfirst, hmid, hbeating⟩ :=
      h.delay hd (hsteady.earlier hle) hclock hlow hbetween hbetween'
    obtain ⟨r', fires'', hlater, hclock', hdone⟩ := ih hothers hbeating hmid hbetween hbetween' hlow' hhigh'
    exact ⟨r', fires'', .delay hfirst hlater, hclock', hdone⟩

theorem beating_of_begin {rs : RuleSet} {solar : Option SolarCalendar} {r₀ : Rehearsal}
    (hrules : rs.rules = [rule]) (hbeats : rule.Beats e) (hstart : start.InCalendar)
    (hnext : (start.beat e 1).InCalendar) (hbegin : begin rs start solar = .ok r₀)
    (hfurnished : r₀.Furnishes r) :
    r.Beating rule start e 0 0 ∧ r.clock.now = start ∧ rule.name.isScalar = true ∧
      .zero ≤ rule.cooldown := by
  obtain ⟨s, hready, hnow, hengine, hok, rfl⟩ := begin_eq_ok hbegin
  obtain ⟨w, hload, hservice⟩ := Service.loadRuleSet_eq_ok hready.running hok
  obtain ⟨book, hbuild, rfl⟩ := World.build_of_load hload
  obtain ⟨p, hpnow, hattached, rfl⟩ := hfurnished
  have hrule := (RuleBook.holds_of_build hbuild).inOrder
  rw [hrules] at hrule
  obtain ⟨m, hmachines, hm⟩ := List.map_eq_singleton_iff.mp hrule
  obtain ⟨m₀, hfresh, -, retrigger, harm, rfl⟩ := RuleBook.mem_of_build hbuild m (by simp [hmachines])
  rw [show s.world.platform.now = start from hnow, Option.getD_none] at harm
  obtain rfl : m₀.rule = rule := hm
  obtain ⟨armed, harmed, hbeat⟩ := Retrigger.onBeat_of_arm hstart hnext
    (hfresh.specs.trans hbeats.periodic) hfresh.cooldown hfresh.lastFired s.world.platform.solar
  cases harm.symm.trans harmed
  rw [hservice] at hpnow hattached ⊢
  have hclock : p.now = start := hpnow.trans hnow
  have hattached : p.attached = s.world.platform.attached := hattached
  refine ⟨⟨hready.running, ⟨hready.atRest.stays (.quiet rfl rfl hattached rfl), rfl⟩, ?_, retrigger, hbeat,
    ⟨_, hmachines, rfl, rfl⟩, hclock, ?_⟩, rfl, hfresh.name, hfresh.cooldown_nonneg⟩
  · have hbefore := Moment.before_beat_iff (t := start) (e := e).mpr Nat.one_pos
    rwa [Moment.beat_zero] at hbefore
  · simp [withWorld, Engine.firedCount, hengine]

/-- A rehearsal of one rule without triggers and suppressors, which always runs, has a cooldown and fires
by itself every so often: delays of any lengths, within the calendar, end normally, and after them the rule
has fired once for the first beat, if they have reached it, and once more for every stride that fits into
the time after it. -/
theorem fires_with_every_stride {rs : RuleSet} {solar : Option SolarCalendar} {r₀ : Rehearsal}
    {seconds : List Document} {ds : List Duration} (hrules : rs.rules = [rule]) (hbeats : rule.Beats e)
    (hcooldown : rule.cooldown.Representable) (hstart : start.InCalendar)
    (hroom : (start.plus ⟨(total ds / e.micros + 1) * e.micros⟩).InCalendar)
    (hbegin : begin rs start solar = .ok r₀) (hfurnished : r₀.Furnishes r)
    (hdelays : seconds.mapM delayOf = .ok ds) :
    ∃ r', r.DelaysAll seconds r' ∧ r'.clock.now = start.plus ⟨total ds⟩ ∧
      (r'.service.world.engine.firedCount rule.name : Int) =
        if total ds < e.micros then 0
        else 1 + (total ds - e.micros) / (e.micros * max 1 (rule.cooldown.intervals e)) := by
  obtain ⟨n, hn, hlow, hhigh⟩ := exists_passed e (total_nonneg hdelays)
  rw [← hn] at hroom
  have hnext := Moment.inCalendar_beat hstart hroom (show 1 ≤ n + 1 by omega)
  obtain ⟨hbeating, hclock, hname, hnonneg⟩ :=
    beating_of_begin hrules hbeats hstart hnext hbegin hfurnished
  have hsteady : Steady rule start e n := ⟨hbeats, hname, ⟨hnonneg, hcooldown⟩, hstart, hroom⟩
  have hzero : r.clock.now = start.plus ⟨0⟩ := by simp [hclock, Moment.plus]
  obtain ⟨r', fires, hall, hclock', hdone⟩ := hbeating.delays hdelays hsteady hzero (by simp)
    (by simpa using e.positive) (by simpa using hlow) (by simpa using hhigh)
  obtain ⟨retrigger, hbeat, hlone⟩ := hdone.lone
  refine ⟨r', hall, by simpa using hclock', ?_⟩
  rw [hlone.counted]
  exact hbeat.fires_eq hlow hhigh

/-- A rule that would fire every ten seconds and rests for twenty-five, with a lamp that it switches, and
with actions that fail. -/
def beacon : Rule where
  name := .text "beacon"
  cooldown := .ofSeconds 25
  periodic := [.every (.ofSeconds 10)]
  actions := [.command (.text "lamp") (.onOff .on), .update (.text "lamp") (.onOff .off),
    .sequence [.counter (.text "beats") (.text "beacon"), .fail "no", .record], .notify (.text "beat"),
    .command (.text "nothing") (.onOff .on)]

def beacons : RuleSet := { rules := [beacon] }

def midnight : Moment := .onDay 739256 0 (some 0)

def lighthouse : Result Rehearsal := do
  let r ← begin beacons midnight none
  let (_, r) ← r.addItem "lamp" [.onOff] none
  return r

/-- In forty-five seconds the rule fires after ten and after forty. -/
theorem fires_with_every_stride_beacon :
    beacon.Beats (.ofSeconds 10) ∧ beacon.cooldown.Representable ∧ midnight.InCalendar ∧
    [Document.int 15, .int 30].mapM delayOf = .ok [.ofSeconds 15, .ofSeconds 30] ∧
    ∃ r₀ r r', begin beacons midnight none = .ok r₀ ∧ r₀.Furnishes r ∧
      r.DelaysAll [.int 15, .int 30] r' ∧ r'.clock.now = midnight.plus ⟨45000000⟩ ∧
      (r'.service.world.engine.firedCount (.text "beacon") : Int) = 2 := by
  have hrules : beacons.rules = [beacon] := rfl
  have hbeats : beacon.Beats (.ofSeconds 10) := ⟨rfl, rfl, rfl, rfl, rfl, rfl⟩
  have hstart : midnight.InCalendar := by decide
  have hdelays : [Document.int 15, .int 30].mapM delayOf = .ok [.ofSeconds 15, .ofSeconds 30] :=
    Result.ok_of_toOption (by decide +kernel)
  have hok : lighthouse.isOk = true := by decide +kernel
  obtain ⟨r, hlighthouse⟩ : ∃ r, lighthouse = .ok r := by
    cases h : lighthouse with
    | error fault =>
      rw [h] at hok
      cases hok
    | ok r => exact ⟨r, rfl⟩
  obtain ⟨r₀, hbegin, hadd⟩ := Result.bind_eq_ok.mp hlighthouse
  obtain ⟨⟨_, _⟩, hadded, hadd⟩ := Result.bind_eq_ok.mp hadd
  cases hadd
  have hfurnished := furnishes_addItem hadded
  obtain ⟨r', hall, hclock, hcount⟩ := fires_with_every_stride hrules hbeats (by decide) hstart
    (by decide) hbegin hfurnished hdelays
  exact ⟨hbeats, by decide, hstart, hdelays, r₀, r, r', hbegin, hfurnished, hall, hclock, hcount⟩

end Domotics.Rehearsal
