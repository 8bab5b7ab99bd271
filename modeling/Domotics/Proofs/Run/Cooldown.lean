import Domotics.Proofs.Engine.Load
import Domotics.Proofs.Run.Call
import Domotics.Proofs.Run.Remember
import Mathlib.Data.List.Chain

/-!
Every rule rests for its cooldown between two fires, in every run after a load, whatever the clock
does. A rule remembers a time that is not before its last fire, also when a fire breaks half-way, and
passes of other rules leave both as they are.
-/

namespace Domotics

namespace Moment

def AtLeast (d : Duration) (t u : Moment) : Prop := ∃ elapsed, u.since t = .ok elapsed ∧ d ≤ elapsed

theorem atLeast_iff {d : Duration} {t u : Moment} :
    AtLeast d t u ↔ u.Comparable t ∧ d.micros ≤ u.instant - t.instant := by
  rw [AtLeast, since, since?]
  by_cases hcomparable : u.Comparable t
  · simp [hcomparable, Duration.le_def]
  · simp [hcomparable]

theorem atLeast_refl (t : Moment) : AtLeast .zero t t :=
  atLeast_iff.mpr ⟨rfl, by simp [Duration.zero]⟩

theorem AtLeast.trans {d : Duration} {t u v : Moment} (h₁ : AtLeast .zero t u)
    (h₂ : AtLeast d u v) : AtLeast d t v := by
  obtain ⟨hcomparable, hle⟩ := atLeast_iff.mp h₁
  obtain ⟨hcomparable', hle'⟩ := atLeast_iff.mp h₂
  refine atLeast_iff.mpr ⟨hcomparable'.trans hcomparable, ?_⟩
  simp only [Duration.zero] at hle
  omega

instance : Trans (AtLeast .zero) (AtLeast .zero) (AtLeast .zero) := ⟨AtLeast.trans⟩

theorem AtLeast.weaken {c d : Duration} {t u : Moment} (h : AtLeast d t u) (hcd : c ≤ d) :
    AtLeast c t u := by
  obtain ⟨elapsed, hsince, hle⟩ := h
  exact ⟨elapsed, hsince, Int.le_trans hcd hle⟩

end Moment

theorem Retrigger.atLeast_of_mayFire {r : Retrigger} {now last : Moment}
    (h : r.mayFire now = .ok true) (hlast : r.lastFired = some last) :
    Moment.AtLeast r.cooldown last now := by
  rw [mayFire, hlast] at h
  cases hsince : now.since last with
  | error fault => simp [hsince, bind, Except.bind] at h
  | ok elapsed =>
    simp only [hsince, bind, Except.bind, pure, Except.pure, Except.ok.injEq, decide_eq_true_eq] at h
    exact ⟨elapsed, hsince, h⟩

namespace Happening

def firedAt? (name : Document) : Happening → Option Moment
  | passed o => if o.fired && o.rule.agrees name then some o.time else none
  | _ => none

def firesOf (name : Document) (trail : List Happening) : List Moment :=
  trail.filterMap (firedAt? name)

@[simp] theorem firesOf_append (name : Document) (t u : List Happening) :
    firesOf name (t ++ u) = firesOf name t ++ firesOf name u := List.filterMap_append

theorem firesOf_pass {name rule : Document} {e : Event} {inner : List Happening} (last : Happening)
    (h : ∀ x ∈ inner, x.isInner = true) :
    firesOf name (.began rule e :: inner ++ [last]) = (last.firedAt? name).toList :=
  filterMap_pass (fun x hx => by cases x <;> simp_all [endsPass, firedAt?]) last h

end Happening

namespace Machine

open Happening

/-- A rule that has rested between its fires so far, and that remembers a time not before the last. -/
structure Rested (m : Machine) (fires : List Moment) : Prop where
  cooldown : m.retrigger.cooldown = m.rule.cooldown
  cooldown_nonneg : .zero ≤ m.rule.cooldown
  spaced : fires.IsChain (Moment.AtLeast m.rule.cooldown)
  last : ∀ t ∈ fires.getLast?, ∃ u, m.retrigger.lastFired = some u ∧ Moment.AtLeast .zero t u

theorem rested_of_fresh {m : Machine} (h : m.Fresh) : m.Rested [] :=
  ⟨h.cooldown, h.cooldown_nonneg, .nil, by simp⟩

variable {m m' : Machine} {fires : List Moment} {now : Moment}

theorem Rested.atLeast (h : m.Rested fires) (hmay : m.retrigger.mayFire now = .ok true) :
    ∀ t ∈ fires.getLast?, Moment.AtLeast m.rule.cooldown t now := by
  intro t ht
  obtain ⟨u, hlast, htu⟩ := h.last t ht
  have hun := Retrigger.atLeast_of_mayFire hmay hlast
  rw [h.cooldown] at hun
  exact htu.trans hun

theorem Rested.pass {result : Result Outcome} (h : m.Rested fires)
    (hpassed : Passed m m' now result) : m'.Rested fires where
  cooldown := by rw [hpassed.cooldown, hpassed.rule, h.cooldown]
  cooldown_nonneg := by rw [hpassed.rule]; exact h.cooldown_nonneg
  spaced := by rw [hpassed.rule]; exact h.spaced
  last t ht := by
    rcases hpassed.lastFired with hsame | ⟨hmay, hnow⟩
    · rw [hsame]
      exact h.last t ht
    · exact ⟨now, hnow, (h.atLeast hmay t ht).weaken h.cooldown_nonneg⟩

theorem Rested.fire {o : Outcome} (h : m.Rested fires) (hpassed : Passed m m' now (.ok o))
    (hfired : o.fired = true) : m'.Rested (fires ++ [now]) := by
  obtain ⟨hmay, hnow⟩ := hpassed.fired o rfl hfired
  have hpass := h.pass hpassed
  refine ⟨hpass.cooldown, hpass.cooldown_nonneg, ?_, ?_⟩
  · refine hpass.spaced.append (.singleton now) fun t ht u hu => ?_
    rw [List.head?_cons, Option.mem_some_iff] at hu
    subst hu
    rw [hpassed.rule]
    exact h.atLeast hmay t ht
  · intro t ht
    rw [List.getLast?_append, List.getLast?_singleton, Option.some_or, Option.mem_some_iff] at ht
    subst ht
    exact ⟨now, hnow, Moment.atLeast_refl now⟩

/-- A turn of a rule, in which `added` happens: the rule goes on resting between its fires, and no
other rule fires. -/
structure Turn (m m' : Machine) (added : List Happening) : Prop where
  rule : m'.rule = m.rule
  rested : ∀ fires, m.Rested fires → m'.Rested (fires ++ firesOf m.rule.name added)
  others : ∀ name, m.rule.name.agrees name = false → firesOf name added = []

theorem Turn.refl (m : Machine) : Turn m m [] :=
  ⟨rfl, fun fires h => by simpa [firesOf] using h, fun _ _ => rfl⟩

theorem Turn.broke {added : List Happening} (h : Turn m m' added) (rule : Document) (e : Event)
    (fault : Fault) : Turn m m' (added ++ [.broke rule e fault]) := by
  have hfires (name : Document) : firesOf name (added ++ [.broke rule e fault]) =
      firesOf name added := by simp [firesOf, firedAt?]
  refine ⟨h.rule, fun fires hf => ?_, fun name hname => ?_⟩
  · rw [hfires]
    exact h.rested fires hf
  · rw [hfires]
    exact h.others name hname

theorem Turn.planned {m'' : Machine} {added : List Happening} (h : Turn m m' added)
    (hplanned : Planned m' m'') : Turn m m'' added where
  rule := hplanned.rule.trans h.rule
  others := h.others
  rested fires hf := by
    have hm := h.rested fires hf
    refine ⟨?_, ?_, ?_, ?_⟩
    · rw [hplanned.cooldown, hplanned.rule, hm.cooldown]
    · rw [hplanned.rule]
      exact hm.cooldown_nonneg
    · rw [hplanned.rule]
      exact hm.spaced
    · rw [hplanned.lastFired]
      exact hm.last

variable (m : Machine) (aliases : AliasRegistry) (w : World) (e : Event) (now : Moment)

theorem turn_handle : ∃ added,
    w.Acts (Action.allKeepToBus m.rule.actions = true) (m.handle aliases w e now).world added ∧
      Turn m (m.handle aliases w e now).machine added := by
  obtain ⟨inner, hacts, hinner, hwhole⟩ := acts_handle m aliases w e now
  have hpassed := passed_handle m aliases w e now
  refine ⟨_, hacts, hpassed.rule, fun fires hf => ?_, fun name hname => ?_⟩
  · rw [firesOf_pass _ hinner]
    cases hresult : (m.handle aliases w e now).result with
    | error fault => simpa [ending, firedAt?] using hf.pass hpassed
    | ok o =>
      rw [hresult] at hpassed
      by_cases hfired : o.fired = true ∧ o.rule.agrees m.rule.name = true
      · simpa [ending, firedAt?, hfired, (hwhole o hresult).1] using hf.fire hpassed hfired.1
      · simpa [ending, firedAt?, hfired] using hf.pass hpassed
  · rw [firesOf_pass _ hinner]
    cases hresult : (m.handle aliases w e now).result with
    | error fault => rfl
    | ok o =>
      have hrule : o.rule = m.rule.name := (hwhole o hresult).2.rule
      simp [ending, firedAt?, hrule, hname]

theorem turn_handleTick : ∃ added,
    w.Acts (Action.allKeepToBus m.rule.actions = true) (m.handleTick aliases w now).world added ∧
      Turn m (m.handleTick aliases w now).machine added := by
  obtain ⟨added, hacts, hturn⟩ := turn_handle m aliases w (.tick now) now
  have hticked := m.ticked_handleTick aliases w now
  generalize m.handleTick aliases w now = tick at hticked ⊢
  cases hticked with
  | notDue => exact ⟨[], .refl w, .refl m⟩
  | unknown fault => exact ⟨_, .mark w _ rfl, (Turn.refl m).broke _ _ fault⟩
  | passed hresult hplanned => exact ⟨added, hacts, hturn.planned hplanned⟩
  | unplanned fault hplanned =>
    exact ⟨_, hacts.trans (.mark _ _ rfl), (hturn.planned hplanned).broke _ _ fault⟩

end Machine
namespace World

open Happening Machine

/-- Since the load of generation `g`, at which `before` had happened, the rules of that generation have
rested between their fires. -/
def RestsSince (g : Nat) (before : List Happening) (rules : List Rule) (w : World) : Prop :=
  w.Remembers (fun m later => m.Rested (firesOf m.rule.name later)) g before rules

theorem RestsSince.generation {g : Nat} {before : List Happening} {rules : List Rule} {w : World}
    (h : w.RestsSince g before rules) : g ≤ w.engine.generation :=
  Remembers.generation h

section

variable {plain : Prop} {g generation index : Nat} {before added : List Happening}
  {rules : List Rule} {w w' : World} {m m' : Machine} {rest : List Machine}

theorem RestsSince.rested (h : w.RestsSince g before rules) :
    w.engine.generation = g → ∃ later, w.trail = before ++ later ∧
      w.engine.book.machines.map (·.rule) = rules ∧
      ∀ m ∈ w.engine.book.machines, m.Rested (firesOf m.rule.name later) :=
  Remembers.since h

/-- A turn of a rule, in whatever way it goes, lets all rules go on resting. -/
theorem RestsSince.store (h : w.RestsSince g before rules) (hapart : RuleBook.Apart rules)
    (hahead : w.Ahead generation index (m :: rest)) (hg : g ≤ generation)
    (hle : generation ≤ w.engine.generation) (hacts : w.Acts plain w' added)
    (hturn : Turn m m' added) : (w'.storeMachine generation index m').RestsSince g before rules := by
  refine Remembers.store h hapart hahead hg hle hacts hturn.rule (fun later hm => ?_)
    fun x later hdiffer hx => ?_
  · rw [hturn.rule, firesOf_append]
    exact hturn.rested _ hm
  · rwa [firesOf_append, hturn.others x.rule.name hdiffer, List.append_nil]

theorem RestsSince.passAll {machines : List Machine} {round : Round} {e : Event} {report : Report}
    (h : w.RestsSince g before rules) (hapart : RuleBook.Apart rules)
    (hahead : w.Ahead round.generation index machines) (hg : g ≤ round.generation)
    (hle : round.generation ≤ w.engine.generation) :
    (World.passAll round e index machines w report).1.RestsSince g before rules := by
  refine passAll_keeps (fun {w index m rest} _ hw hle hahead => ?_) h hle hahead
  obtain ⟨added, hacts, hturn⟩ := turn_handle m round.aliases w e round.now
  exact hw.store hapart hahead hg hle hacts hturn

theorem RestsSince.tickAll {machines : List Machine} {round : Round} {report : Report}
    (h : w.RestsSince g before rules) (hapart : RuleBook.Apart rules)
    (hahead : w.Ahead round.generation index machines) (hg : g ≤ round.generation)
    (hle : round.generation ≤ w.engine.generation) :
    (World.tickAll round index machines w report).1.RestsSince g before rules := by
  refine tickAll_keeps (fun {w index m rest} _ hw hle hahead => ?_) h hle hahead
  obtain ⟨added, hacts, hturn⟩ := turn_handleTick m round.aliases w round.now
  exact hw.store hapart hahead hg hle hacts hturn

theorem invariant_restsSince (g : Nat) (before : List Happening) {rules : List Rule}
    (hapart : RuleBook.Apart rules) : Invariant (RestsSince g before rules) where
  bus _ h := ⟨h.generation, h.rested⟩
  platform _ h := ⟨h.generation, h.rested⟩
  queue _ _ h := ⟨h.generation, h.rested⟩
  report _ h := ⟨h.generation, h.rested⟩
  published e h := by
    refine Remembers.mark h fun m later hm => ?_
    have hnone : firesOf m.rule.name [.published e] = [] := rfl
    rwa [firesOf_append, hnone, List.append_nil]
  processOne e h := h.passAll hapart (fun _ => rfl) h.generation (Nat.le_refl _)
  tickAll now h := h.tickAll hapart (fun _ => rfl) h.generation (Nat.le_refl _)

theorem restsSince_of_load {rs : RuleSet} {now : Option Moment}
    (h : w.load rs now = (w', .ok ())) :
    w'.RestsSince w'.engine.generation w'.trail rs.rules := by
  obtain ⟨book, hbook, rfl⟩ := load_eq_ok h
  refine ⟨Nat.le_refl _, fun _ => ⟨[], by simp, hbook.inOrder, fun m hm => ?_⟩⟩
  exact rested_of_fresh (hbook.fresh m hm)

/-- However a run goes on after a load, at least its cooldown passes from each fire of a rule to the
next one, as long as no rules are loaded anew; so the times of its fires never decrease. -/
theorem run_keeps_cooldown {fuel : Nat} {rs : RuleSet} {now : Option Moment}
    (hload : w.load rs now = (w', .ok ())) (calls : List Call)
    (hgeneration : (w'.run fuel calls).engine.generation = w'.engine.generation) :
    ∃ later, (w'.run fuel calls).trail = w'.trail ++ later ∧ ∀ r ∈ rs.rules,
      (firesOf r.name later).IsChain (Moment.AtLeast r.cooldown) ∧
        (firesOf r.name later).Pairwise (Moment.AtLeast .zero) := by
  obtain ⟨book, hbook, _⟩ := load_eq_ok hload
  have hrests := (invariant_restsSince w'.engine.generation w'.trail hbook.apart).run fuel calls
    (restsSince_of_load hload)
  obtain ⟨later, htrail, hrules, hrested⟩ := hrests.rested hgeneration
  refine ⟨later, htrail, fun r hr => ?_⟩
  rw [← hrules] at hr
  obtain ⟨m, hm, rfl⟩ := List.mem_map.mp hr
  have hspaced := (hrested m hm).spaced
  have hordered : (firesOf m.rule.name later).IsChain (Moment.AtLeast .zero) :=
    hspaced.imp fun _ _ h => h.weaken (hrested m hm).cooldown_nonneg
  exact ⟨hspaced, hordered.pairwise⟩

end

def eager : RuleSet :=
  { rules := [{ name := .text "eager", triggers := [.all []], actions := [.record] }] }

/-- A command, one second and then three more seconds after which it comes again, and a tick at an
earlier time. -/
def eagerCalls : List Call :=
  let at' (seconds : Int) : Moment := ⟨seconds * 1000000, none⟩
  let command : Event := { ref := none, kind := .command, time := at' 0 }
  [.event command, .adjust { now := at' 1 }, .event command, .adjust { now := at' 4 }, .event command,
    .tick (some (at' 0))]

theorem run_keeps_cooldown_eager :
    let start : World := { platform := { now := ⟨0, none⟩ } }
    let loaded := (start.load eager none).1
    start.load eager none = (loaded, .ok ()) ∧
    (loaded.run 2 eagerCalls).engine.generation = loaded.engine.generation ∧
    ∃ later, (loaded.run 2 eagerCalls).trail = loaded.trail ++ later ∧ ∀ r ∈ eager.rules,
      (firesOf r.name later).IsChain (Moment.AtLeast r.cooldown) ∧
        (firesOf r.name later).Pairwise (Moment.AtLeast .zero) :=
  ⟨rfl, by decide +kernel, run_keeps_cooldown rfl eagerCalls (by decide +kernel)⟩

example :
    let start : World := { platform := { now := ⟨0, none⟩ } }
    firesOf (.text "eager") ((start.load eager none).1.run 2 eagerCalls).trail =
      [⟨0, none⟩, ⟨4000000, none⟩] := by decide +kernel

end World
end Domotics
