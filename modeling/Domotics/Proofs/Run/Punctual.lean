import Domotics.Proofs.Engine.Plan
import Domotics.Proofs.Run.Loads
import Domotics.Proofs.Run.Rest

/-!
No rule falls behind the clock, unless an action loads the rules for a time that has passed. After a load the
next periodic fire of every rule lies ahead; every pass over an event leaves it there, also when it breaks
half-way or loads the rules anew, and a tick that comes to its end brings it there again for all rules,
whichever of them were due.
-/

namespace Domotics

theorem Engine.nextWakeup_of_punctual {e : Engine} {now : Moment}
    (h : ∀ m ∈ e.book.machines, m.retrigger.Punctual now) :
    ∃ wakeup, e.nextWakeup = .ok wakeup ∧ ∀ t ∈ wakeup, now.Before t := by
  have hahead : ∀ t ∈ e.book.machines.filterMap (·.retrigger.nextTick), now.Before t := by
    intro t ht
    obtain ⟨m, hm, htick⟩ := List.mem_filterMap.mp ht
    exact (h m hm).ahead t htick
  obtain ⟨wakeup, hwakeup⟩ := Retrigger.exists_earliest fun t ht => (hahead t ht).1
  refine ⟨wakeup, hwakeup, fun t ht => ?_⟩
  cases ht
  exact hahead t (Retrigger.mem_of_earliest hwakeup)

namespace Machine

variable (m : Machine) (aliases : AliasRegistry) (w : World) (e : Event) (now : Moment)

/-- A pass keeps the plan of a rule ahead of any time up to its own, and brings it there if the rule
fires. -/
theorem armed_handle (h : m.retrigger.Armed) :
    (m.handle aliases w e now).machine.retrigger.Armed ∧
      (∀ t, t.NotAfter now → m.retrigger.Punctual t →
        (m.handle aliases w e now).machine.retrigger.Punctual t) ∧
      ∀ o, (m.handle aliases w e now).result = .ok o → o.fired = true →
        (m.handle aliases w e now).machine.retrigger.Punctual now := by
  have hhandled := m.handled_handle aliases w e now
  generalize m.handle aliases w e now = pass at hhandled ⊢
  cases hhandled with
  | broke => exact ⟨h, fun _ _ => id, by simp⟩
  | rested _ hrests =>
    refine ⟨h, fun _ _ => id, fun o ho hfired => ?_⟩
    cases ho
    exact absurd (by simpa [Outcome.fired] using hfired) hrests
  | @fired j after retrigger record _ _ _ hrecord =>
    have hretrigger := h.recordFired now after.platform.solar
    rw [hrecord] at hretrigger
    exact ⟨hretrigger.1, hretrigger.2.2, fun _ _ _ => hretrigger.2.1 rfl⟩
  | @unplanned j after retrigger fault _ _ _ hrecord =>
    have hretrigger := h.recordFired now after.platform.solar
    rw [hrecord] at hretrigger
    exact ⟨hretrigger.1, hretrigger.2.2, by simp⟩

theorem armed_handleTick (h : m.retrigger.Armed) :
    (m.handleTick aliases w now).machine.rule = m.rule ∧
      (m.handleTick aliases w now).machine.retrigger.Armed ∧
      ∀ o, (m.handleTick aliases w now).result = .ok o →
        (m.handleTick aliases w now).machine.retrigger.Punctual now := by
  have hrule := (m.passed_handle aliases w (.tick now) now).rule
  obtain ⟨harmed, -, hfires⟩ := m.armed_handle aliases w (.tick now) now h
  rw [handleTick]
  split
  · exact ⟨rfl, h, by simp⟩
  · rename_i hdue
    exact ⟨rfl, h, fun _ _ => h.punctual_of_not_due hdue⟩
  · dsimp only
    generalize m.handle aliases w (.tick now) now = pass at hrule harmed hfires ⊢
    split
    · exact ⟨hrule, harmed, by simp⟩
    · rename_i o hresult
      split
      · rename_i hfired
        exact ⟨hrule, harmed, fun _ _ => hfires o hresult hfired⟩
      · have hplan := harmed.plan now w.platform.solar
        rw [← Retrigger.consume] at hplan
        split
        · rename_i hconsumed
          rw [hconsumed] at hplan
          exact ⟨hrule, hplan.1, fun _ _ => hplan.2.1 rfl⟩
        · rename_i hconsumed
          rw [hconsumed] at hplan
          exact ⟨hrule, hplan.1, by simp⟩

end Machine

namespace World

/-- The clock has reached a time, the loaded rules are those of the rule set that was loaded last, and
their timers are of a kind. -/
structure Timed (rs : RuleSet) (now : Moment) (Q : Retrigger → Prop) (w : World) : Prop where
  now : now.NotAfter w.platform.now
  lastRuleSet : w.lastRuleSet = rs
  machines : ∀ m ∈ w.engine.book.machines, m.rule ∈ rs.rules ∧ Q m.retrigger

variable {rs : RuleSet} {now : Moment} {P : World → Prop} {ok : Option Moment → Prop}

/-- A property that depends on nothing but the loaded rules, the rule set they are from, the clock and the
sun is kept by every pass, if it is so when the rules are loaded anew. -/
theorem passLaw_of_frame
    (hframe : ∀ {w w' : World}, w'.engine.book = w.engine.book →
      w'.engine.generation = w.engine.generation → w'.lastRuleSet = w.lastRuleSet →
      w'.platform.now = w.platform.now → w'.platform.solar = w.platform.solar → P w → P w')
    (hreload : ∀ {w : World} (now : Option Moment), ok now → P w →
      P (w.load w.lastRuleSet now).1) : PassLaw ok P where
  bus _ := hframe rfl rfl rfl rfl rfl
  queue _ _ := hframe rfl rfl rfl rfl rfl
  report _ := hframe rfl rfl rfl rfl rfl
  update _ _ _ := by rw [noted]; split <;> exact hframe rfl rfl rfl rfl rfl
  command _ _ _ := by rw [noted]; split <;> exact hframe rfl rfl rfl rfl rfl
  note _ := hframe rfl rfl rfl rfl rfl
  services _ _ := hframe rfl rfl rfl rfl rfl
  mark _ _ := hframe rfl rfl rfl rfl rfl
  recorded _ := hframe rfl rfl rfl rfl rfl
  reload time hok h := reload_keeps time (fun _ _ => hframe rfl rfl rfl rfl rfl) (hreload time hok h)

/-- After a load for a time that is not before `now`, the plans of all rules lie ahead. -/
theorem timed_of_load {w v : World} {time : Option Moment} (hnow : now.NotAfter w.platform.now)
    (harming : now.NotAfter (time.getD w.platform.now)) (hload : w.load rs time = (v, .ok ())) :
    Timed rs now (·.Punctual now) v := by
  obtain ⟨book, hbuild, rfl⟩ := build_of_load hload
  refine ⟨hnow, rfl, fun m hm => ⟨?_, ?_⟩⟩
  · rw [← (RuleBook.holds_of_build hbuild).inOrder]
    exact List.mem_map_of_mem hm
  · have hpunctual := RuleBook.punctual_of_build hbuild m hm
    exact ⟨hpunctual.armed, fun t ht => harming.trans_before (hpunctual.ahead t ht)⟩

theorem Timed.mono {Q Q' : Retrigger → Prop} {w : World} (h : Timed rs now Q w) (hQ : ∀ r, Q r → Q' r) :
    Timed rs now Q' w :=
  ⟨h.now, h.lastRuleSet, fun m hm => (h.machines m hm).imp_right (hQ _)⟩

theorem Timed.frame {Q : Retrigger → Prop} {w w' : World} (h : Timed rs now Q w)
    (hbook : w'.engine.book = w.engine.book) (hlast : w'.lastRuleSet = w.lastRuleSet)
    (hnow : w'.platform.now = w.platform.now) : Timed rs now Q w' :=
  ⟨hnow ▸ h.now, hlast.trans h.lastRuleSet, hbook ▸ h.machines⟩

theorem Timed.store {Q : Retrigger → Prop} {w : World} {m : Machine} (h : Timed rs now Q w)
    (hm : m.rule ∈ rs.rules ∧ Q m.retrigger) (generation index : Nat) :
    Timed rs now Q (w.storeMachine generation index m) :=
  ⟨h.now, h.lastRuleSet, forall_mem_storeMachine h.machines hm generation index⟩

/-- In the middle of a tick: the plans of the rules that have had their turn lie ahead, and those of all
rules do if they have been loaded anew meanwhile. -/
structure Ticking (rs : RuleSet) (now : Moment) (generation index : Nat) (w : World) : Prop where
  armed : Timed rs now (·.Armed) w
  notBefore : generation ≤ w.engine.generation
  reloaded : generation < w.engine.generation → Timed rs now (·.Punctual now) w
  passed : w.engine.generation = generation → ∀ m ∈ w.engine.book.machines.take index,
    m.retrigger.Punctual now

section

variable {before : List Happening} {accepted : Moment → Moment → Prop} {w : World} {m : Machine}
  {rest machines : List Machine} {round : Round} {index : Nat} {report : Report}
  (haccepted : ∀ armed present, now.NotAfter present → accepted armed present → now.NotAfter armed)

include haccepted

theorem passLaw_timed : PassLaw (fun _ => True) (Provided before accepted (Timed rs now (·.Punctual now))) := by
  refine passLaw_provided (passLaw_of_frame (fun hbook _ hlast hnow _ h => h.frame hbook hlast hnow)
    fun _ hnone => hnone.elim) fun time hload hok h => ?_
  rw [h.lastRuleSet] at hload
  exact timed_of_load h.now (haccepted _ _ h.now hok) hload

theorem timed_passAll {e : Event} (hround : now.NotAfter round.now)
    (hle : round.generation ≤ w.engine.generation) (hahead : w.Ahead round.generation index machines)
    (hmachines : ∀ m ∈ machines, m.rule ∈ rs.rules ∧ m.retrigger.Punctual now)
    (h : Provided before accepted (Timed rs now (·.Punctual now)) w) :
    Provided before accepted (Timed rs now (·.Punctual now)) (World.passAll round e index machines w report).1 := by
  refine passAll_keeps (fun {w index m rest} hm hw _ _ => ?_) h hle hahead
  obtain ⟨hrule, hpunctual⟩ := hmachines m hm
  have hpass := (passLaw_timed haccepted).handle
    (Action.allLoadOnly_true m.rule.actions) round.aliases e round.now hw
  have hmachine := (m.armed_handle round.aliases w e round.now hpunctual.armed).2.1 now hround hpunctual
  have hsame := (m.passed_handle round.aliases w e round.now).rule
  exact hpass.step List.prefix_rfl fun _ htimed =>
    htimed.store ⟨hsame ▸ hrule, hmachine⟩ round.generation index

theorem passLaw_ticking (generation index : Nat) :
    PassLaw (fun _ => True) (Provided before accepted (Ticking rs now generation index)) := by
  refine passLaw_provided (passLaw_of_frame (fun hbook hgeneration hlast hnow _ h => ?_)
    fun _ hnone => hnone.elim) fun time hload hok h => ?_
  · refine ⟨h.armed.frame hbook hlast hnow, hgeneration ▸ h.notBefore,
      fun hlt => (h.reloaded (hgeneration ▸ hlt)).frame hbook hlast hnow, ?_⟩
    rw [hbook, hgeneration]
    exact h.passed
  · rw [h.armed.lastRuleSet] at hload
    have htimed := timed_of_load h.armed.now (haccepted _ _ h.armed.now hok) hload
    obtain ⟨book, -, rfl⟩ := build_of_load hload
    exact ⟨htimed.mono fun _ => (·.armed), Nat.le_succ_of_le h.notBefore, fun _ => htimed,
      fun hsame => absurd hsame (Nat.ne_of_gt (Nat.lt_succ_of_le h.notBefore))⟩

theorem ticking_store {aliases : AliasRegistry} {generation : Nat} {o : Option Outcome}
    (h : Provided before accepted (Ticking rs now generation index) w)
    (hm : m.rule ∈ rs.rules ∧ m.retrigger.Armed)
    (hresult : (m.handleTick aliases w now).result = .ok o) :
    Provided before accepted (Ticking rs now generation (index + 1))
      ((m.handleTick aliases w now).world.storeMachine generation index
        (m.handleTick aliases w now).machine) := by
  have hpass := (passLaw_ticking haccepted generation index).handleTick
    (Action.allLoadOnly_true m.rule.actions) aliases now h
  obtain ⟨hrule, harmed, hpunctual⟩ := m.armed_handleTick aliases w now hm.2
  have hdone := hpunctual o hresult
  refine hpass.step List.prefix_rfl fun _ hticking => ⟨hticking.armed.store ⟨hrule ▸ hm.1, harmed⟩ generation index,
    by simpa using hticking.notBefore, fun hlt => ?_, fun hsame x hx => ?_⟩
  · rw [storeMachine_generation] at hlt
    exact (hticking.reloaded hlt).store ⟨hrule ▸ hm.1, hdone⟩ generation index
  · rw [storeMachine_generation] at hsame
    rw [storeMachine_machines _ hsame, List.take_add_one, List.take_set_of_le (Nat.le_refl _)] at hx
    rcases List.mem_append.mp hx with hx | hx
    · exact hticking.passed hsame x hx
    · rw [List.getElem?_set_self', Option.mem_toList, Option.map_eq_map, Option.map_eq_some_iff] at hx
      obtain ⟨_, -, rfl⟩ := hx
      exact hdone

/-- A tick at the present that does not break brings all plans ahead. -/
theorem timed_tickAll {report' : Report} (round : Round) (hround : round.now = now)
    (h : Provided before accepted (Ticking rs now round.generation index) w)
    (hle : round.generation ≤ w.engine.generation) (hahead : w.Ahead round.generation index machines)
    (hmachines : ∀ m ∈ machines, m.rule ∈ rs.rules ∧ m.retrigger.Armed)
    (hok : (World.tickAll round index machines w report).2 = .ok report') :
    Provided before accepted (Timed rs now (·.Punctual now)) (World.tickAll round index machines w report).1 := by
  subst hround
  induction machines generalizing index w report with
  | nil =>
    refine h.step List.prefix_rfl fun _ hticking => ⟨hticking.armed.now, hticking.armed.lastRuleSet, fun m hm => ?_⟩
    by_cases hsame : w.engine.generation = round.generation
    · refine ⟨(hticking.armed.machines m hm).1, hticking.passed hsame m ?_⟩
      rwa [List.take_of_length_le (List.drop_eq_nil_iff.mp (hahead hsame))]
    · exact (hticking.reloaded (by omega)).machines m hm
  | cons m rest ih =>
    obtain ⟨hm, hrest⟩ := List.forall_mem_cons.mp hmachines
    obtain ⟨added, hacts⟩ := m.acts_handleTick round.aliases w round.now
    have hnext := hahead.store hle hacts (m.handleTick round.aliases w round.now).machine
    have hlater : round.generation ≤ ((m.handleTick round.aliases w round.now).world.storeMachine
        round.generation index (m.handleTick round.aliases w round.now).machine).engine.generation := by
      rw [storeMachine_generation]
      exact Nat.le_trans hle hacts.generation
    rw [World.tickAll] at hok ⊢
    cases hresult : (m.handleTick round.aliases w round.now).result with
    | error fault => simp [hresult] at hok
    | ok o =>
      have hstored := ticking_store haccepted h hm hresult
      cases o with
      | none =>
        simp only [hresult] at hok ⊢
        exact ih hlater hnext hrest hok hstored
      | some o =>
        simp only [hresult] at hok ⊢
        exact ih hlater hnext hrest hok hstored

theorem law_timed : Law (Provided before accepted (Timed rs now (·.Punctual now))) where
  bus _ h := h.step List.prefix_rfl fun _ htimed => htimed.frame rfl rfl rfl
  queue _ _ h := h.step List.prefix_rfl fun _ htimed => htimed.frame rfl rfl rfl
  report _ h := h.step List.prefix_rfl fun _ htimed => htimed.frame rfl rfl rfl
  processOne {w} e h := by
    have htrail := (stays_passAll w ⟨w.engine.book.aliases, w.engine.generation, w.platform.now⟩ e 0
      w.engine.book.machines {}).trail
    refine h.step htrail fun hloads htimed => ?_
    have hpassed : Provided before accepted (Timed rs now (·.Punctual now)) (w.processOne e).1 :=
      timed_passAll haccepted htimed.now (Nat.le_refl _) (fun _ => rfl) htimed.machines h
    exact hpassed.holds hloads

/-- A tick at the present that comes to its end brings all plans ahead, whatever it causes, if it loads rules
only for times that are not before the present. -/
theorem Timed.tick {fuel : Nat} (h : Timed rs now (·.Armed) w) (hidle : w.engine.draining = false)
    (hreturned : (w.tick fuel (some now)).2 = .returned report)
    (hloads : (w.tick fuel (some now)).1.LoadsSince w.trail accepted) :
    Timed rs now (·.Punctual now) (w.tick fuel (some now)).1 := by
  have law : Law (Provided w.trail accepted (Timed rs now (·.Punctual now))) := law_timed haccepted
  refine Provided.holds ?_ hloads
  rw [tick_of_idle fuel (some now) hidle] at hreturned ⊢
  split at hreturned
  · cases hreturned
  · rename_i report' hok
    refine law.feed.setDraining false (law.feed.drain fuel report' ?_)
    have hstart : Provided w.trail accepted (Ticking rs now w.engine.generation 0) (w.setDraining true) :=
      ⟨List.prefix_rfl, fun _ => ⟨h.frame rfl rfl rfl, Nat.le_refl _, fun hlt => absurd hlt (Nat.lt_irrefl _),
        fun _ x hx => by simp at hx⟩⟩
    exact timed_tickAll haccepted ((w.setDraining true).tickRound (some now)) rfl hstart (Nat.le_refl _)
      (fun _ => List.drop_zero) h.machines hok

end

end World
end Domotics
