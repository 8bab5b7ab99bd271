import Domotics.Proofs.Periodic.Recurrence
import Domotics.Proofs.Run.Punctual
import Domotics.Proofs.Run.Rest

/-!
Rules whose periodic fires could be planned once go on being planned. On a fixed calendar, with bounds
that do not lie too far before their days and at times away from the limits of the calendar, no plan
fails: a pass that breaks does so in its judgement, before the rule has done anything, and a tick that
comes to its end leaves the next wake-up ahead of itself.
-/

namespace Domotics

/-- What happens while no plan fails: events are published, passes are whole, and those that break do so
in their judgement. -/
inductive Sustained (rules : List Rule) : List Happening → Prop where
  | nil : Sustained rules []
  | published {trail : List Happening} (e : Event) (h : Sustained rules trail) :
      Sustained rules (trail ++ [.published e])
  | pass {trail : List Happening} {p : Pass} (hrule : p.rule ∈ rules) (hwhole : p.Whole)
      (h : Sustained rules trail) : Sustained rules (trail ++ p.trail)
  | broke {trail : List Happening} {m : Machine} {aliases : AliasRegistry} {w : World} {e : Event}
      {now : Moment} {fault : Fault} (hrule : m.rule ∈ rules)
      (hverdict : m.verdict aliases w e now = .error fault) (h : Sustained rules trail) :
      Sustained rules (trail ++ [.began m.rule.name e, .broke m.rule.name e fault])

theorem Sustained.trans {rules : List Rule} {trail later : List Happening} (h₁ : Sustained rules trail)
    (h₂ : Sustained rules later) : Sustained rules (trail ++ later) := by
  induction h₂ with
  | nil => simpa using h₁
  | published e _ ih => simpa using ih.published e
  | pass hrule hwhole _ ih => simpa using ih.pass hrule hwhole
  | broke hrule hverdict _ ih => simpa using ih.broke hrule hverdict

namespace RuleSet

def periodic (rs : RuleSet) : List Periodic := rs.rules.flatMap (·.periodic)

/-- A time at which all plans of the rules are away from the limits of the calendar. -/
def Clear (rs : RuleSet) (solar : SolarCalendar) (offset : Option Int) (t : Moment) : Prop :=
  Retrigger.Clear rs.periodic solar offset t

instance (rs : RuleSet) (solar : SolarCalendar) (offset : Option Int) (t : Moment) :
    Decidable (rs.Clear solar offset t) := inferInstanceAs (Decidable (Retrigger.Clear ..))

def Lasting (rs : RuleSet) (solar : SolarCalendar) (offset : Option Int) (r : Retrigger) : Prop :=
  r.Lasting rs.periodic solar offset

def Recurs (rs : RuleSet) (solar : SolarCalendar) : Prop := ∀ spec ∈ rs.periodic, spec.Recurs solar

instance (rs : RuleSet) (solar : SolarCalendar) : Decidable (rs.Recurs solar) :=
  inferInstanceAs (Decidable (∀ spec ∈ rs.periodic, spec.Recurs solar))

variable {rs : RuleSet} {solar : SolarCalendar} {offset : Option Int}

theorem mem_periodic {r : Rule} {spec : Periodic} (hr : r ∈ rs.rules) (hspec : spec ∈ r.periodic) :
    spec ∈ rs.periodic := List.mem_flatMap.mpr ⟨r, hr, hspec⟩

/-- Rules whose plans do not fail, under a sun that is the same every day. -/
structure Sustains (rs : RuleSet) (solar : SolarCalendar) (offset : Option Int) : Prop where
  fixed : solar.Fixed offset
  recurs : rs.Recurs solar

theorem Sustains.build (hrs : rs.Sustains solar offset) {now : Moment} {book : RuleBook}
    (hnow : rs.Clear solar offset now) (h : RuleBook.build rs now solar = .ok book) :
    ∀ m ∈ book.machines, m.rule ∈ rs.rules ∧ rs.Lasting solar offset m.retrigger := by
  intro m hm
  obtain ⟨m₀, hfresh, hrule, retrigger, harm, rfl⟩ := RuleBook.mem_of_build h m hm
  have hmem : ∀ spec ∈ m₀.retrigger.specs, spec ∈ rs.periodic :=
    fun spec hspec => mem_periodic hrule (hfresh.specs ▸ hspec)
  obtain ⟨r', harm', hlasting⟩ :=
    Retrigger.lasting_of_arm hrs.fixed hrs.recurs hmem hfresh.lastFired hnow
  cases harm.symm.trans harm'
  exact ⟨hrule, hlasting⟩

end RuleSet

namespace World

/-- From one world to another the last that happens is a pass that breaks with a fault. -/
def Breaks (fault : Fault) (w w' : World) : Prop :=
  ∃ added rule e, w'.trail = w.trail ++ added ++ [.broke rule e fault]

section

variable {w w' w'' : World} {fault : Fault} {round : Round} {report : Report}

theorem Stays.breaks (h : w.Stays w') (hbreaks : Breaks fault w' w'') : Breaks fault w w'' := by
  obtain ⟨first, hfirst⟩ := h.trail
  obtain ⟨added, rule, e, hadded⟩ := hbreaks
  exact ⟨first ++ added, rule, e, by rw [hadded, ← hfirst]; simp⟩

theorem Breaks.quiet (h : Breaks fault w w') (htrail : w''.trail = w'.trail) : Breaks fault w w'' := by
  rwa [Breaks, htrail]

theorem breaks_handle {m : Machine} {aliases : AliasRegistry} {e : Event} {now : Moment}
    (h : (m.handle aliases w e now).result = .error fault) :
    Breaks fault w (m.handle aliases w e now).world := by
  obtain ⟨inner, hacts, -⟩ := m.acts_handle aliases w e now
  refine ⟨.began m.rule.name e :: inner, m.rule.name, e, ?_⟩
  rw [hacts.trail, h, List.append_assoc]
  rfl

theorem breaks_handleTick {m : Machine} {aliases : AliasRegistry} {now : Moment}
    (h : (m.handleTick aliases w now).result = .error fault) :
    Breaks fault w (m.handleTick aliases w now).world := by
  obtain ⟨inner, hacts, -⟩ := m.acts_handle aliases w (.tick now) now
  have hbreaks : (m.handle aliases w (.tick now) now).result = .error fault →
      Breaks fault w (m.handle aliases w (.tick now) now).world := breaks_handle
  have hticked := m.ticked_handleTick aliases w now
  generalize m.handle aliases w (.tick now) now = pass at hacts hbreaks hticked
  generalize m.handleTick aliases w now = tick at h hticked ⊢
  cases hticked with
  | notDue => cases h
  | unknown fault =>
    cases h
    exact ⟨[], m.rule.name, .tick now, by simp⟩
  | @passed m' result hresult _ =>
    cases result with
    | ok o => cases h
    | error fault =>
      cases h
      exact hbreaks hresult
  | unplanned fault _ =>
    cases h
    exact ⟨_, _, _, by rw [mark_trail, hacts.trail]⟩

theorem breaks_passAll {e : Event} {index : Nat} {machines : List Machine}
    (h : (passAll round e index machines w report).2 = .error fault) :
    Breaks fault w (passAll round e index machines w report).1 := by
  induction machines generalizing index w report with
  | nil => cases h
  | cons m rest ih =>
    obtain ⟨inner, hacts, -⟩ := m.acts_handle round.aliases w e round.now
    have hstays := (Stays.ofActs hacts).trans (.storeMachine _ round.generation index
      (m.handle round.aliases w e round.now).machine)
    rw [passAll] at h ⊢
    cases hresult : (m.handle round.aliases w e round.now).result with
    | error fault' =>
      simp only [hresult] at h ⊢
      cases h
      exact (breaks_handle hresult).quiet (storeMachine_trail ..)
    | ok o =>
      simp only [hresult] at h ⊢
      exact hstays.breaks (ih h)

theorem breaks_tickAll {index : Nat} {machines : List Machine}
    (h : (tickAll round index machines w report).2 = .error fault) :
    Breaks fault w (tickAll round index machines w report).1 := by
  induction machines generalizing index w report with
  | nil => cases h
  | cons m rest ih =>
    obtain ⟨added, hacts⟩ := m.acts_handleTick round.aliases w round.now
    have hstays := (Stays.ofActs hacts).trans (.storeMachine _ round.generation index
      (m.handleTick round.aliases w round.now).machine)
    rw [tickAll] at h ⊢
    cases hresult : (m.handleTick round.aliases w round.now).result with
    | error fault' =>
      simp only [hresult] at h ⊢
      cases h
      exact (breaks_handleTick hresult).quiet (storeMachine_trail ..)
    | ok o =>
      cases o with
      | none =>
        simp only [hresult] at h ⊢
        exact hstays.breaks (ih h)
      | some o =>
        simp only [hresult] at h ⊢
        exact hstays.breaks (ih h)

end

open RuleSet

variable {rs : RuleSet} {solar : SolarCalendar} {offset : Option Int}

structure Lasting (rs : RuleSet) (solar : SolarCalendar) (offset : Option Int) (w : World) : Prop where
  now : rs.Clear solar offset w.platform.now
  lastRuleSet : w.lastRuleSet = rs
  machines : ∀ m ∈ w.engine.book.machines, m.rule ∈ rs.rules ∧ rs.Lasting solar offset m.retrigger
  solar : w.platform.solar = solar

theorem Lasting.frame {w w' : World} (h : Lasting rs solar offset w) (hbook : w'.engine.book = w.engine.book)
    (hlast : w'.lastRuleSet = w.lastRuleSet) (hnow : w'.platform.now = w.platform.now)
    (hsolar : w'.platform.solar = w.platform.solar) : Lasting rs solar offset w' :=
  ⟨hnow ▸ h.now, hlast.trans h.lastRuleSet, hbook ▸ h.machines, hsolar.trans h.solar⟩

theorem lasting_of_load {w v : World} {time : Option Moment} (hrs : rs.Sustains solar offset)
    (hsolar : w.platform.solar = solar) (hnow : rs.Clear solar offset w.platform.now)
    (harming : rs.Clear solar offset (time.getD w.platform.now)) (hload : w.load rs time = (v, .ok ())) :
    Lasting rs solar offset v := by
  obtain ⟨book, hbuild, rfl⟩ := build_of_load hload
  exact ⟨hnow, rfl, hrs.build harming (hsolar ▸ hbuild), hsolar⟩

/-- What has been loaded since some point of the trail was loaded for times away from the limits. -/
def LoadsClear (rs : RuleSet) (solar : SolarCalendar) (offset : Option Int) (before : List Happening)
    (w : World) : Prop := w.LoadsSince before fun armed _ => rs.Clear solar offset armed

instance (rs : RuleSet) (solar : SolarCalendar) (offset : Option Int) (before : List Happening) (w : World) :
    Decidable (LoadsClear rs solar offset before w) :=
  inferInstanceAs (Decidable (w.LoadsSince before fun armed _ => rs.Clear solar offset armed))

theorem passLaw_lasting (hrs : rs.Sustains solar offset) (before : List Happening) : PassLaw (fun _ => True)
    (Provided before (fun armed _ => rs.Clear solar offset armed) (Lasting rs solar offset)) := by
  refine passLaw_provided (passLaw_of_frame (fun hbook _ hlast hnow hsolar h => h.frame hbook hlast hnow hsolar)
    fun _ hnone => hnone.elim) fun time hload hclear h => ?_
  rw [h.lastRuleSet] at hload
  exact lasting_of_load hrs h.solar h.now hclear hload

structure Sustaining (rs : RuleSet) (solar : SolarCalendar) (offset : Option Int)
    (before : List Happening) (w : World) : Prop extends Lasting rs solar offset w where
  trail : ∃ added, w.trail = before ++ added ∧ Sustained rs.rules added

variable {before added : List Happening} {w w' : World} {m : Machine} {aliases : AliasRegistry}
  {now : Moment}

theorem Sustaining.extend (h : Sustaining rs solar offset before w) (hw : Lasting rs solar offset w')
    (htrail : w'.trail = w.trail ++ added) (hadded : Sustained rs.rules added) :
    Sustaining rs solar offset before w' := by
  obtain ⟨first, hfirst, hsustained⟩ := h.trail
  exact ⟨hw, first ++ added, by rw [htrail, hfirst, List.append_assoc], hsustained.trans hadded⟩

theorem Sustaining.quiet (h : Sustaining rs solar offset before w) (hw : Lasting rs solar offset w')
    (htrail : w'.trail = w.trail) : Sustaining rs solar offset before w' :=
  ⟨hw, htrail ▸ h.trail⟩

theorem Sustaining.handle (hrs : rs.Sustains solar offset) (h : Sustaining rs solar offset before w)
    (hm : m.rule ∈ rs.rules ∧ rs.Lasting solar offset m.retrigger) (hnow : rs.Clear solar offset now)
    (aliases : AliasRegistry) (e : Event)
    (hloads : LoadsClear rs solar offset w.trail (m.handle aliases w e now).world) :
    Sustaining rs solar offset before (m.handle aliases w e now).world ∧
      (m.handle aliases w e now).machine.rule ∈ rs.rules ∧
      rs.Lasting solar offset (m.handle aliases w e now).machine.retrigger := by
  have law := passLaw_lasting hrs w.trail
  have hactions := Action.allLoadOnly_true m.rule.actions
  have hafter : Provided w.trail (fun armed _ => rs.Clear solar offset armed) (Lasting rs solar offset)
      (m.afterActions aliases (w.mark (.began m.rule.name e)) e now) :=
    law.runEach hactions (law.mark _ rfl (.start h.toLasting))
  obtain ⟨retrigger, hrecord, hlasting⟩ := hm.2.recordFired hrs.fixed hrs.recurs hnow
  have hworld := (law.handle hactions aliases e now (.start h.toLasting)).holds hloads
  obtain ⟨inner, hacts, -, hwhole⟩ := m.acts_handle aliases w e now
  have htrail := hacts.trail
  have hhandled := m.handled_handle aliases w e now
  generalize m.handle aliases w e now = pass at hloads hworld hwhole htrail hhandled ⊢
  -- A pass that ends with an outcome is whole.
  have hpass (o : Outcome) (hresult : pass.result = .ok o) :
      Sustaining rs solar offset before pass.world := by
    refine h.extend hworld htrail ?_
    rw [hresult]
    simpa [Pass.trail, Machine.ending] using
      Sustained.nil.pass (p := ⟨m.rule, e, inner, o⟩) hm.1 (hwhole o hresult).2
  cases hhandled with
  | broke hverdict => exact ⟨h.extend hworld (by simp) (Sustained.nil.broke hm.1 hverdict), hm⟩
  | rested => exact ⟨hpass _ rfl, hm⟩
  | fired record _ _ heq hrecord' =>
    subst heq
    have hsolar := (hafter.holds (hloads.of_prefix (prefix_mark ..))).solar
    rw [hsolar, hrecord] at hrecord'
    cases hrecord'
    exact ⟨hpass _ rfl, hm.1, hlasting⟩
  | unplanned _ _ heq hrecord' =>
    subst heq
    have hsolar := (hafter.holds (hloads.of_prefix (prefix_mark ..))).solar
    rw [hsolar, hrecord] at hrecord'
    cases hrecord'

theorem Sustaining.handleTick (hrs : rs.Sustains solar offset) (h : Sustaining rs solar offset before w)
    (hm : m.rule ∈ rs.rules ∧ rs.Lasting solar offset m.retrigger) (hnow : rs.Clear solar offset now)
    (hloads : LoadsClear rs solar offset w.trail (m.handleTick aliases w now).world) :
    Sustaining rs solar offset before (m.handleTick aliases w now).world ∧
      (m.handleTick aliases w now).machine.rule ∈ rs.rules ∧
      rs.Lasting solar offset (m.handleTick aliases w now).machine.retrigger := by
  obtain ⟨due, hdue⟩ := hm.2.due hnow.offset
  have hpass := h.handle hrs hm hnow aliases (.tick now)
  rw [Machine.handleTick, hdue] at hloads ⊢
  cases due with
  | false => exact ⟨h, hm⟩
  | true =>
    dsimp only at hloads ⊢
    generalize m.handle aliases w (.tick now) now = pass at hpass hloads ⊢
    split at hloads
    · exact hpass hloads
    · split at hloads
      · rename_i hfired
        rw [if_pos hfired]
        exact hpass hloads
      · rename_i hrests
        rw [if_neg hrests]
        -- The plan that follows cannot fail.
        have hplan (hclear : LoadsClear rs solar offset w.trail pass.world) :
            ∃ r, pass.machine.retrigger.consume now w.platform.solar = (r, .ok ()) ∧ rs.Lasting solar offset r := by
          rw [Retrigger.consume, h.solar]
          exact (hpass hclear).2.2.plan hrs.fixed hrs.recurs hnow
        split at hloads
        · rename_i hconsume
          obtain ⟨r, hr, hlasting⟩ := hplan hloads
          cases hconsume.symm.trans hr
          exact ⟨(hpass hloads).1, (hpass hloads).2.1, hlasting⟩
        · rename_i hconsume
          obtain ⟨r, hr, -⟩ := hplan (hloads.of_prefix (prefix_mark ..))
          cases hconsume.symm.trans hr

theorem Sustaining.store (h : Sustaining rs solar offset before w)
    (hm : m.rule ∈ rs.rules ∧ rs.Lasting solar offset m.retrigger) (generation index : Nat) :
    Sustaining rs solar offset before (w.storeMachine generation index m) :=
  h.quiet ⟨h.now, h.lastRuleSet, forall_mem_storeMachine h.machines hm generation index, h.solar⟩ rfl

/-- The plans of the rules last, if what has been loaded since a time was loaded for times away from the limits. -/
def KeptUp (rs : RuleSet) (solar : SolarCalendar) (offset : Option Int) (before : List Happening) : World → Prop :=
  Provided before (fun armed _ => rs.Clear solar offset armed) (Sustaining rs solar offset before)

theorem KeptUp.quiet (h : KeptUp rs solar offset before w)
    (hw : Lasting rs solar offset w → Lasting rs solar offset w') (htrail : w'.trail = w.trail) :
    KeptUp rs solar offset before w' :=
  h.step (htrail ▸ List.prefix_rfl) fun _ hs => hs.quiet (hw hs.toLasting) htrail

theorem KeptUp.frame (h : KeptUp rs solar offset before w) (hbook : w'.engine.book = w.engine.book)
    (hlast : w'.lastRuleSet = w.lastRuleSet) (hplatform : w'.platform = w.platform)
    (htrail : w'.trail = w.trail) : KeptUp rs solar offset before w' :=
  h.quiet (fun hw => hw.frame hbook hlast (by rw [hplatform]) (by rw [hplatform])) htrail

theorem law_keptUp (hrs : rs.Sustains solar offset) : Law (KeptUp rs solar offset before) where
  bus _ h := h.frame rfl rfl rfl rfl
  queue _ _ h := h.frame rfl rfl rfl rfl
  report _ h := h.frame rfl rfl rfl rfl
  processOne {w} e h := by
    refine h.step (stays_passAll ..).trail fun hloads hstart => ?_
    have hpassed : KeptUp rs solar offset before (w.processOne e).1 := by
      refine passAll_keeps (fun {v index m rest} hm hv _ _ => ?_) h (Nat.le_refl _) fun _ => rfl
      obtain ⟨inner, hacts, -⟩ := m.acts_handle w.engine.book.aliases v e w.platform.now
      refine hv.step (hacts.trail ▸ List.prefix_append ..) fun hloads hs => ?_
      obtain ⟨hpass, hmachine⟩ :=
        hs.handle hrs (hstart.machines m hm) hstart.now _ e (hloads.later hv.goesOn)
      exact hpass.store hmachine _ _
    exact hpassed.holds hloads

theorem KeptUp.tick (hrs : rs.Sustains solar offset) (h : KeptUp rs solar offset before w)
    (fuel : Nat) {time : Option Moment} (htime : ∀ t ∈ time, rs.Clear solar offset t) :
    KeptUp rs solar offset before (w.tick fuel time).1 := by
  have law : Law (KeptUp rs solar offset before) := law_keptUp hrs
  refine law.feed.tick fuel time h ?_
  have htrail := ((w.setDraining true).stays_tickAll ((w.setDraining true).tickRound time) 0
    (w.setDraining true).engine.book.machines {}).trail
  refine h.step htrail fun hloads hstart => ?_
  have hnow : rs.Clear solar offset (time.getD w.platform.now) := by
    cases time with
    | none => exact hstart.now
    | some t => exact htime t rfl
  have hticked : KeptUp rs solar offset before
      (tickAll (w.tickRound time) 0 w.engine.book.machines (w.setDraining true) {}).1 := by
    refine tickAll_keeps (fun {v index m rest} hm hv _ _ => ?_) (law.queue _ _ h) (Nat.le_refl _) fun _ => rfl
    obtain ⟨added, hacts⟩ := m.acts_handleTick (w.tickRound time).aliases v (w.tickRound time).now
    refine hv.step (hacts.trail ▸ List.prefix_append ..) fun hloads hs => ?_
    obtain ⟨hpass, hmachine⟩ :=
      hs.handleTick hrs (hstart.machines m hm) hnow (hloads.later hv.goesOn)
    exact hpass.store hmachine _ _
  exact hticked.holds hloads

theorem KeptUp.noted (h : KeptUp rs solar offset before w) {done : Platform × Event}
    (hnow : done.1.now = w.platform.now) (hsolar : done.1.solar = w.platform.solar) :
    KeptUp rs solar offset before (w.noted done) := by
  have hdone (hw : Lasting rs solar offset w) : Lasting rs solar offset { w with platform := done.1 } :=
    hw.frame rfl rfl hnow hsolar
  refine h.step (prefix_noted ..) fun _ hs => ?_
  rw [World.noted]
  split
  · exact hs.extend ((hdone hs.toLasting).frame rfl rfl rfl rfl) (mark_trail ..) (Sustained.nil.published done.2)
  · exact hs.quiet (hdone hs.toLasting) rfl

/-- A call that moves the clock only within the limits of the calendar, and leaves the sun alone. -/
def Call.Clear (rs : RuleSet) (solar : SolarCalendar) (offset : Option Int) : Call → Prop
  | tick time => ∀ t ∈ time, rs.Clear solar offset t
  | adjust p => p.solar = solar ∧ rs.Clear solar offset p.now
  | _ => True

/-- A call keeps the world so, however it ends. -/
theorem KeptUp.perform (hrs : rs.Sustains solar offset) (h : KeptUp rs solar offset before w)
    (fuel : Nat) {c : Call} (hc : c.Clear rs solar offset) :
    KeptUp rs solar offset before (w.perform fuel c).1 := by
  have law : Law (KeptUp rs solar offset before) := law_keptUp hrs
  cases c with
  | event e => exact law.feed.processEvent fuel trivial h
  | publish e =>
    refine law.feed.publishOnBus fuel e (h.step (prefix_mark ..) fun _ hs => ?_)
    exact hs.extend (hs.toLasting.frame rfl rfl rfl rfl) (mark_trail ..) (Sustained.nil.published e)
  | update r v source => exact law.feed.updateState fuel r v source (h.noted rfl rfl)
  | command r v source =>
    exact law.feed.sendCommand fuel r v source (h.noted rfl rfl) fun h => h.noted rfl rfl
  | tick time => exact h.tick hrs fuel hc
  | adjust p => exact h.quiet (fun hw => ⟨hc.2, hw.lastRuleSet, hw.machines, hc.1⟩) rfl

theorem KeptUp.run (hrs : rs.Sustains solar offset) (h : KeptUp rs solar offset before w)
    (fuel : Nat) {calls : List Call} (hcalls : ∀ c ∈ calls, c.Clear rs solar offset) :
    KeptUp rs solar offset before (w.run fuel calls) := by
  induction calls generalizing w with
  | nil => exact h
  | cons c rest ih =>
    obtain ⟨hc, hrest⟩ := List.forall_mem_cons.mp hcalls
    exact ih (h.perform hrs fuel hc) hrest

end World
end Domotics
