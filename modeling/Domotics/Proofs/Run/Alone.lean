import Domotics.Proofs.Engine.Plan
import Domotics.Proofs.Run.Fair
import Domotics.Proofs.Run.Remember

/-!
A rule among others and the same rule alone. While the actions of all rules keep still, the other rules of
an engine are nothing to a rule: it judges every event as it would alone, remembers the same, and has the
same outcomes.
-/

namespace Domotics

/-- The rule of a set alone, under all aliases of the set. -/
def RuleSet.only (rs : RuleSet) (r : Rule) : RuleSet where
  rules := [r.bare]
  aliases := rs.aliases ++ rs.rules.flatMap (·.aliases)

namespace World

open Happening Machine

structure Other (r : Rule) (m : Machine) : Prop where
  name : m.rule.name.agrees r.name = false
  still : Action.allKeepStill m.rule.actions = true

/-- Two worlds that share a rule: one has it in its `i`-th place among others, the other has it alone. In both
it remembers the same and has had the same outcomes. -/
structure Shares (r : Rule) (b g g' i : Nat) (m : Machine) (w v : World) : Prop where
  inStep : w.InStep v
  escapes : w.escapes = b
  generation : w.engine.generation = g
  generation' : v.engine.generation = g'
  aliases : w.engine.book.aliases = v.engine.book.aliases
  rule : m.rule = r
  here : w.engine.book.machines[i]? = some m
  alone : v.engine.book.machines = [m.bare]
  others : ∀ j x, j ≠ i → w.engine.book.machines[j]? = some x → Other r x
  outcomes : outcomesOf r.name w.trail = outcomesOf r.name v.trail

def Share (r : Rule) (b g g' : Nat) (w v : World) : Prop := ∃ i m, Shares r b g g' i m w v

variable {α : Type} {r : Rule} {b g g' i index : Nat} {m x : Machine} {w v : World}
  {outs : α → List Outcome} {pass pass' : PassResult α}

theorem Shares.other (h : Shares r b g g' i m w v) (hx : Other r x) (hi : index ≠ i)
    (hwent : Went x w outs pass) (hlost : ¬ Lost b g pass.world) :
    Shares r b g g' i m (pass.world.storeMachine g index pass.machine) v ∧ ∃ a, pass.result = .ok a := by
  obtain ⟨hescapes, hgeneration, a, hok⟩ := hwent.kept h.escapes h.generation hlost
  obtain ⟨-, hnamed, houtcomes⟩ := hwent.whole a hok
  have hsame := hgeneration.trans h.generation.symm
  have hbook := hwent.still.book hsame
  have hnone : (outs a).filter (·.rule.agrees r.name) = [] := by
    refine List.filter_eq_nil_iff.mpr fun o ho => ?_
    rw [hnamed o ho, hx.name]
    simp
  have hstep := hwent.still.inStep (.refl v) hsame rfl h.inStep
  have hothers : ∀ j y, j ≠ i →
      (w.engine.book.machines.set index pass.machine)[j]? = some y → Other r y := by
    intro j y hj hy
    by_cases hindex : index = j
    · subst hindex
      have hlt := (List.getElem?_eq_some_iff.mp hy).1
      rw [List.length_set] at hlt
      rw [List.getElem?_set_self hlt, Option.some.injEq] at hy
      subst hy
      exact ⟨hwent.rule ▸ hx.name, hwent.rule ▸ hx.still⟩
    · rw [List.getElem?_set_ne hindex] at hy
      exact h.others j y hj hy
  rw [storeMachine_of_generation index _ hgeneration, hbook]
  refine ⟨{ h with
    inStep := ⟨hstep.bus, hstep.pending, hstep.draining, hstep.platform⟩
    escapes := hescapes
    generation := hgeneration
    here := (List.getElem?_set_ne hi).trans h.here
    others := hothers
    outcomes := ?_ }, a, hok⟩
  have htrail := houtcomes r.name
  rw [hnone, List.append_nil, h.outcomes] at htrail
  exact htrail

theorem Shares.own (h : Shares r b g g' i m w v) (hwent : Went m w outs pass)
    (hwent' : Went m.bare v outs pass') (hmachine : pass'.machine = pass.machine.bare)
    (hresult : pass'.result = pass.result) (hlost : ¬ Lost b g pass.world)
    (hlost' : ¬ Renewed g' pass'.world) :
    Shares r b g g' i pass.machine (pass.world.storeMachine g i pass.machine)
      (pass'.world.storeMachine g' 0 pass'.machine) ∧ ∃ a, pass.result = .ok a := by
  obtain ⟨hescapes, hgeneration, a, hok⟩ := hwent.kept h.escapes h.generation hlost
  obtain ⟨-, -, houtcomes⟩ := hwent.whole a hok
  obtain ⟨-, -, houtcomes'⟩ := hwent'.whole a (hresult.trans hok)
  have hsame := hgeneration.trans h.generation.symm
  have hgeneration' : pass'.world.engine.generation = g' := by
    have hle := hwent'.still.generation
    rw [h.generation'] at hle
    exact Nat.le_antisymm (Nat.le_of_not_lt hlost') hle
  have hsame' := hgeneration'.trans h.generation'.symm
  have hstep := hwent.still.inStep hwent'.still hsame hsame' h.inStep
  have hlt := (List.getElem?_eq_some_iff.mp h.here).1
  rw [storeMachine_of_generation i _ hgeneration, storeMachine_of_generation 0 _ hgeneration',
    hwent.still.book hsame, hwent'.still.book hsame']
  refine ⟨{
    inStep := ⟨hstep.bus, hstep.pending, hstep.draining, hstep.platform⟩
    escapes := hescapes
    generation := hgeneration
    generation' := hgeneration'
    aliases := h.aliases
    rule := hwent.rule.trans h.rule
    here := List.getElem?_set_self hlt
    alone := by rw [h.alone, hmachine]; rfl
    others := fun j y hj hy => h.others j y hj ((List.getElem?_set_ne (Ne.symm hj)).symm.trans hy)
    outcomes := ?_ }, a, hok⟩
  have htrail := houtcomes r.name
  rw [h.outcomes, ← houtcomes' r.name] at htrail
  exact htrail

variable {turn : Machine → World → PassResult α} {machines : List Machine}

theorem Shares.sweep_others (hfair : Fair turn outs) (h : Shares r b g g' i m w v)
    (hothers : ∀ x ∈ machines, Other r x) (hi : i < index ∨ index + machines.length ≤ i) :
    Lost b g (sweep turn g index machines w).1 ∨ Shares r b g g' i m (sweep turn g index machines w).1 v ∧
      (sweep turn g index machines w).2 = .ok () := by
  induction machines generalizing index w with
  | nil => exact .inr ⟨h, rfl⟩
  | cons x rest ih =>
    obtain ⟨hx, hrest⟩ := List.forall_mem_cons.mp hothers
    rw [List.length_cons] at hi
    have hne : index ≠ i := by omega
    have hlater : i < index + 1 ∨ index + 1 + rest.length ≤ i := by omega
    by_cases hlost : Lost b g (turn x w).world
    · exact .inl (sweep_cons_keeps (hlost.storeMachine ..) (lost_sweep hfair fun y hy => (hrest y hy).still))
    · obtain ⟨hshares, a, hok⟩ := h.other hx hne (hfair.went w hx.still) hlost
      rw [sweep_cons_of_ok hok]
      exact ih hshares hrest hlater

/-- The turns of all rules in the one world, and of the rule alone in the other. -/
theorem Shares.sweep_round {before after : List Machine} (hfair : Fair turn outs)
    (hstill : Action.allKeepStill r.actions = true) (h : Shares r b g g' i m w v)
    (hbefore : ∀ x ∈ before, Other r x) (hafter : ∀ x ∈ after, Other r x) (hi : before.length = i) :
    Abreast (Share r b g g') (Lost b g) (Renewed g') Result.Both
      (sweep turn g 0 (before ++ m :: after) w) (sweep turn g' 0 [m.bare] v) := by
  have hm : Action.allKeepStill m.rule.actions = true := h.rule ▸ hstill
  have hlater : ∀ x ∈ after, Action.allKeepStill x.rule.actions = true := fun x hx => (hafter x hx).still
  rw [sweep_append, Nat.zero_add, hi]
  rcases hmid : sweep turn g 0 before w with ⟨mid, result⟩
  have hbegun := h.sweep_others hfair hbefore (show i < 0 ∨ 0 + before.length ≤ i by omega)
  rw [hmid] at hbegun
  rcases hbegun with hlost | ⟨hshares, hok⟩
  · left
    cases result with
    | ok => exact lost_sweep hfair (List.forall_mem_cons.mpr ⟨hm, hlater⟩) hlost
    | error fault => exact hlost
  cases hok
  dsimp only
  by_cases hlost : Lost b g (turn m mid).world
  · exact .inl (sweep_cons_keeps (hlost.storeMachine ..) (lost_sweep hfair hlater))
  by_cases hlost' : Renewed g' (turn m.bare v).world
  · exact .inr (.inl (sweep_cons_keeps (hlost'.storeMachine ..) id))
  have hresult := hfair.result hm hshares.inStep.platform
  obtain ⟨hdone, a, hturn⟩ := hshares.own (hfair.went mid hm) (hfair.went v hm)
    (hfair.machine hm hshares.inStep.platform) hresult hlost hlost'
  rw [sweep_cons_of_ok hturn, sweep_cons_of_ok (hresult.trans hturn)]
  rcases hdone.sweep_others hfair hafter (.inl (Nat.lt_succ_self i)) with hlost | ⟨hend, hok⟩
  · exact .inl hlost
  · exact .inr (.inr ⟨⟨i, _, hend⟩, ⟨_, hok⟩, ⟨_, rfl⟩⟩)

theorem Shares.sweep (hfair : Fair turn outs) (hstill : Action.allKeepStill r.actions = true)
    (h : Shares r b g g' i m w v) : Abreast (Share r b g g') (Lost b g) (Renewed g') Result.Both
      (World.sweep turn g 0 w.engine.book.machines w) (World.sweep turn g' 0 v.engine.book.machines v) := by
  obtain ⟨hlt, hm⟩ := List.getElem?_eq_some_iff.mp h.here
  have hbefore : ∀ x ∈ w.engine.book.machines.take i, Other r x := by
    intro x hx
    obtain ⟨j, hj, rfl⟩ := List.mem_take_iff_getElem.mp hx
    exact h.others j _ (by omega) (List.getElem?_eq_getElem _)
  have hafter : ∀ x ∈ w.engine.book.machines.drop (i + 1), Other r x := by
    intro x hx
    obtain ⟨j, hj, rfl⟩ := List.mem_drop_iff_getElem.mp hx
    exact h.others _ _ (by omega) (List.getElem?_eq_getElem _)
  have hlength : (w.engine.book.machines.take i).length = i := List.length_take_of_le (Nat.le_of_lt hlt)
  have hsplit : w.engine.book.machines =
      w.engine.book.machines.take i ++ m :: w.engine.book.machines.drop (i + 1) := by
    rw [← hm, ← List.drop_eq_getElem_cons hlt, List.take_append_drop]
  rw [h.alone, hsplit]
  exact h.sweep_round hfair hstill hbefore hafter hlength

theorem Shares.keeps {w' v' : World} (h : Shares r b g g' i m w v) (hw : w.Keeps w') (hv : v.Keeps v')
    (hstep : w'.InStep v') : Shares r b g g' i m w' v' := by
  obtain ⟨events, htrail⟩ := hw.trail
  obtain ⟨events', htrail'⟩ := hv.trail
  refine ⟨hstep, ?_, hw.generation.trans h.generation, hv.generation.trans h.generation', ?_, h.rule,
    ?_, ?_, ?_, ?_⟩
  · rw [← h.escapes, World.escapes, htrail, List.countP_append, countP_isEscape_of_isInner
      fun _ hx => isInner_of_isDeed (isDeed_of_mem_map_published _ hx), Nat.add_zero]
    rfl
  · rw [hw.book, hv.book, h.aliases]
  · rw [hw.book, h.here]
  · rw [hv.book, h.alone]
  · rw [hw.book]
    exact h.others
  · rw [htrail, htrail', outcomesOf_append, outcomesOf_append, outcomesOf_map_published,
      outcomesOf_map_published, h.outcomes]

theorem pace_share (hstill : Action.allKeepStill r.actions = true) (b g g' : Nat) :
    Pace (Share r b g g') (Lost b g) (Renewed g') where
  left := invariant_lost b g
  right := invariant_renewed g'
  inStep h := h.choose_spec.choose_spec.inStep
  keeps h hw hv hstep := by
    obtain ⟨i, m, h⟩ := h
    exact ⟨i, m, h.keeps hw hv hstep⟩
  processOne {w v} e h := by
    obtain ⟨i, m, h⟩ := h
    have hround := h.sweep (fair_handle w.engine.book.aliases e w.platform.now) hstill
    apply Abreast.of_map
    rw [processOne_eq_sweep, processOne_eq_sweep, h.generation, h.generation', ← h.aliases,
      ← Platform.now_of_seen h.inStep.platform]
    exact hround
  tickAll {w v} now h := by
    obtain ⟨i, m, h⟩ := h
    have hround := h.sweep (fair_handleTick w.engine.book.aliases (now.getD w.platform.now)) hstill
    apply Abreast.of_map
    rw [tickAll_eq_sweep, tickAll_eq_sweep]
    dsimp only [tickRound]
    rw [h.generation, h.generation', ← h.aliases, ← Platform.now_of_seen h.inStep.platform]
    exact hround

end World

namespace RuleBook

variable {rs : RuleSet} {now : Moment} {solar : SolarCalendar} {book : RuleBook}

theorem build_only {m : Machine} (h : build rs now solar = .ok book) (hm : m ∈ book.machines) :
    build (rs.only m.rule) now solar = .ok { aliases := book.aliases, machines := [m.bare] } := by
  obtain ⟨hname, ⟨t, hmake, harm⟩, hfresh⟩ := made_of_build h m hm
  obtain ⟨aliases, haliases, h⟩ := Result.bind_eq_ok.mp h
  obtain ⟨machines, -, h⟩ := Result.bind_eq_ok.mp h
  obtain ⟨armed, -, h⟩ := Result.bind_eq_ok.mp h
  cases h
  have hbound := registerAll_of_bindAll haliases
  rw [List.flatten_cons, ← List.flatMap_def] at hbound
  have hbind : bindAll {} ((rs.only m.rule).aliases :: (rs.only m.rule).rules.map (·.aliases)) =
      .ok aliases := by
    simp [RuleSet.only, Rule.bare, bindAll, hbound, AliasRegistry.registerAll]
  have hadd : addMachines [] (rs.only m.rule).rules =
      .ok [{ rule := m.rule.bare, retrigger := t }] := by
    simp [RuleSet.only, Rule.bare, addMachines, hname, hmake]
  have harmAll : armAll now solar [{ rule := m.rule.bare, retrigger := t }] = .ok [m.bare] := by
    rw [hfresh]
    simp [armAll, harm, Machine.bare]
  simp only [build, hbind, hadd, Result.ok_bind, harmAll]
  rfl

end RuleBook

namespace World

open Happening Machine RuleBook

variable {rs : RuleSet} {r : Rule} {w₀ w : World} {time : Option Moment}

/-- The world with the rule alone that is to be compared with one with all rules. -/
theorem share_of_load (hload : w₀.load rs time = (w, .ok ())) (hr : r ∈ rs.rules)
    (hstill : ∀ s ∈ rs.rules, Action.allKeepStill s.actions = true) :
    ∃ v, w₀.load (rs.only r) time = (v, .ok ()) ∧
      Share r w.escapes w.engine.generation v.engine.generation w v := by
  obtain ⟨book, hbuild, rfl⟩ := build_of_load hload
  have hholds := holds_of_build hbuild
  obtain ⟨i, hi⟩ := List.mem_iff_getElem?.mp hr
  rw [← hholds.inOrder, List.getElem?_map, Option.map_eq_some_iff] at hi
  obtain ⟨m, hm, rfl⟩ := hi
  have honly := build_only hbuild (List.mem_of_getElem? hm)
  refine ⟨_, load_of_build honly, i, m, ⟨rfl, rfl, rfl, rfl⟩, rfl, rfl, rfl, rfl, rfl, hm, rfl,
    fun j x hj hx => ?_, rfl⟩
  have hmem : x.rule ∈ rs.rules := by
    rw [← hholds.inOrder]
    exact List.mem_map_of_mem (List.mem_of_getElem? hx)
  refine ⟨?_, hstill x.rule hmem⟩
  refine hholds.apart.differ ?_ ?_ hj
  · rw [← hholds.inOrder, List.getElem?_map, hx]
    rfl
  · rw [← hholds.inOrder, List.getElem?_map, hm]
    rfl

/-- Rules do not influence each other. Whatever rules are loaded, if their actions keep still, then each of
them has the outcomes in any run that it has when it is loaded alone under the same aliases, as long as no
pass breaks with a fault from outside the vocabulary of rules, and no rules are loaded anew. -/
theorem outcomes_of_rule_alone (hload : w₀.load rs time = (w, .ok ())) (hr : r ∈ rs.rules)
    (hstill : ∀ s ∈ rs.rules, Action.allKeepStill s.actions = true) :
    ∃ v, w₀.load (rs.only r) time = (v, .ok ()) ∧ ∀ fuel calls,
      (w.run fuel calls).escapes = w.escapes →
      (w.run fuel calls).engine.generation = w.engine.generation →
      (v.run fuel calls).engine.generation = v.engine.generation →
      outcomesOf r.name (w.run fuel calls).trail = outcomesOf r.name (v.run fuel calls).trail := by
  obtain ⟨v, hloaded, hshare⟩ := share_of_load hload hr hstill
  refine ⟨v, hloaded, fun fuel calls hescapes hgeneration hgeneration' => ?_⟩
  have pace := pace_share (hstill r hr) w.escapes w.engine.generation v.engine.generation
  rcases pace.run fuel calls hshare with (hbroke | hrenewed) | hrenewed | ⟨i, m, hend⟩
  · exact absurd hescapes (Nat.ne_of_gt hbroke)
  · exact absurd hgeneration (Nat.ne_of_gt hrenewed)
  · exact absurd hgeneration' (Nat.ne_of_gt hrenewed)
  · exact hend.outcomes

/-- A rule that greets whoever switches on what is called the light, and by itself every minute. -/
def greeter : Rule where
  name := .text "greeter"
  triggers := [.device { target := .text "light", kind := .goes, value := .onOff .on, type := some .onOff }]
  periodic := [.every (.ofSeconds 60)]
  actions := [.notify (.text "hello")]

def crowd : RuleSet where
  rules := [
    { name := .text "lost", triggers := [.device { target := .text "nowhere", kind := .receivesUpdate }] },
    greeter,
    { name := .text "busy", triggers := [.all []], cooldown := .zero
      actions := [.counter (.text "events") (.text "all"), .sequence [.record, .fail "no"]]
      aliases := [("light", ⟨.item, .text "lamp"⟩)] }]

def hall : Platform where
  catalog := { items := [{ name := "lamp", accepts := [.onOff] }] }
  now := ⟨0, none⟩

/-- The lamp goes on, off and on again, is taken away, and then goes on once more. After a minute the rule
greets by itself. -/
def evening : List Call :=
  let lamp (v : Value) : Call :=
    .event { ref := some ⟨.item, "lamp"⟩, kind := .update, new := v, time := ⟨0, none⟩ }
  [lamp (.onOff .on), lamp (.onOff .off), lamp (.onOff .on), .adjust { now := ⟨9000000, none⟩ },
    lamp (.onOff .on), .tick (some ⟨60000000, none⟩)]

theorem outcomes_of_rule_alone_greeter :
    let start : World := { platform := hall }
    let w := (start.load crowd none).1
    let v := (start.load (crowd.only greeter) none).1
    start.load crowd none = (w, .ok ()) ∧ greeter ∈ crowd.rules ∧
    (∀ s ∈ crowd.rules, Action.allKeepStill s.actions = true) ∧
    start.load (crowd.only greeter) none = (v, .ok ()) ∧
    (w.run 2 evening).escapes = w.escapes ∧
    (w.run 2 evening).engine.generation = w.engine.generation ∧
    (v.run 2 evening).engine.generation = v.engine.generation ∧
    outcomesOf greeter.name (w.run 2 evening).trail = outcomesOf greeter.name (v.run 2 evening).trail := by
  intro start w v
  have hload : start.load crowd none = (w, .ok ()) := rfl
  have hmem : greeter ∈ crowd.rules := List.mem_cons_of_mem _ (List.mem_cons_self ..)
  have hstill : ∀ s ∈ crowd.rules, Action.allKeepStill s.actions = true := by decide
  have hescapes : (w.run 2 evening).escapes = w.escapes := by decide +kernel
  have hgeneration : (w.run 2 evening).engine.generation = w.engine.generation := by decide +kernel
  have hgeneration' : (v.run 2 evening).engine.generation = v.engine.generation := by decide +kernel
  obtain ⟨v', hload', hsame⟩ := outcomes_of_rule_alone hload hmem hstill
  obtain rfl : v = v' := congrArg Prod.fst hload'
  exact ⟨hload, hmem, hstill, hload', hescapes, hgeneration, hgeneration',
    hsame 2 evening hescapes hgeneration hgeneration'⟩

example :
    (outcomesOf greeter.name ((load { platform := hall } crowd none).1.run 2 evening).trail).map
      (·.judgement.state) = [.firing, .suppressed, .suppressed, .errored, .firing] := by decide +kernel

end World
end Domotics
