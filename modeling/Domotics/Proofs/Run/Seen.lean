import Domotics.Proofs.Run.Noted
import Domotics.Proofs.Run.Sustained

/-!
What rules have seen. All rules of a load note the updates that the engine processes, in their order. As long
as no fault comes out of a pass, they have therefore seen the same between two events: of every device the
value of its latest update.
-/

namespace Domotics.World

open Happening

inductive Served (w : World) : List Event → World → Prop where
  | event (e : Event) {report : Report} (h : (w.processOne e).2 = .ok report) :
      Served w [e] (w.processOne e).1
  | tick (now : Option Moment) {report : Report}
      (h : (World.tickAll (w.tickRound now) 0 w.engine.book.machines w {}).2 = .ok report) :
      Served w [] (World.tickAll (w.tickRound now) 0 w.engine.book.machines w {}).1

/-- A way from a world to another one. The rules of the latter were loaded when `before` had happened, and
since then the events `since` have been processed. -/
inductive Course (start : World) : List Happening → List Event → World → Prop where
  | start : Course start start.trail [] start
  | quiet {before : List Happening} {since : List Event} {w w' : World}
      (h : Course start before since w) (hquiet : w.Keeps w') : Course start before since w'
  | served {before : List Happening} {since events : List Event} {w w' : World}
      (h : Course start before since w) (hserved : w.Served events w')
      (hsame : w'.engine.generation = w.engine.generation) : Course start before (since ++ events) w'
  | renewed {before : List Happening} {since events : List Event} {w w' : World}
      (h : Course start before since w) (hserved : w.Served events w')
      (hnew : w'.engine.generation ≠ w.engine.generation) : Course start w'.trail [] w'

structure Uniform (before : List Happening) (since : List Event) (w : World) : Prop where
  named : RuleBook.Named (w.engine.book.machines.map (·.rule))
  noted : ∃ later, w.trail = before ++ later ∧
    ∀ m ∈ w.engine.book.machines, notedBy m.rule.name later = since.filter (·.changesState)
  caches : ∀ m ∈ w.engine.book.machines, m.cache = ({} : StateTable).recordAll since

/-- What rules have seen that were loaded when `before` had happened, if the events `since` have been
processed since then. -/
structure HasSeen (before : List Happening) (since : List Event) (w : World) : Prop where
  /-- Every rule has passed over the same updates. -/
  noted : ∃ later, w.trail = before ++ later ∧
    ∀ m ∈ w.engine.book.machines, notedBy m.rule.name later = since.filter (·.changesState)
  /-- Of a device it has seen the value of the latest update, and nothing if there was none. -/
  seen : ∀ m ∈ w.engine.book.machines, ∀ d, m.cache.get? d = (Event.latest? d since).map (·.new)
  alike : ∀ m ∈ w.engine.book.machines, ∀ m' ∈ w.engine.book.machines, m.cache = m'.cache

section

variable {start w w' : World} {before added : List Happening} {since events : List Event} {rs : RuleSet}
  {now : Option Moment}

theorem Uniform.hasSeen (h : w.Uniform before since) : w.HasSeen before since where
  noted := h.noted
  seen m hm d := by rw [h.caches m hm, StateTable.get?_recordAll]
  alike m hm m' hm' := (h.caches m hm).trans (h.caches m' hm').symm

theorem Uniform.next (h : w.Uniform before since)
    (hviews : w'.engine.book.machines.map (·.view) =
      w.engine.book.machines.map fun m => (m.rule, m.cache.recordAll events))
    (htrail : w'.trail = w.trail ++ added)
    (hadded : ∀ m ∈ w.engine.book.machines, notedBy m.rule.name added = events.filter (·.changesState)) :
    w'.Uniform before (since ++ events) := by
  have hformer : ∀ m' ∈ w'.engine.book.machines, ∃ m ∈ w.engine.book.machines,
      m'.rule = m.rule ∧ m'.cache = m.cache.recordAll events := by
    intro m' hm'
    have hview := List.mem_map_of_mem (f := (·.view)) hm'
    rw [hviews] at hview
    obtain ⟨m, hm, heq⟩ := List.mem_map.mp hview
    exact ⟨m, hm, (congrArg Prod.fst heq).symm, (congrArg Prod.snd heq).symm⟩
  obtain ⟨later, hlater, hnoted⟩ := h.noted
  refine ⟨?_, ⟨later ++ added, ?_, fun m' hm' => ?_⟩, fun m' hm' => ?_⟩
  · have hrules := congrArg (List.map Prod.fst) hviews
    rw [List.map_map, List.map_map] at hrules
    rw [show w'.engine.book.machines.map (·.rule) = _ from hrules]
    exact h.named
  · rw [htrail, hlater, List.append_assoc]
  · obtain ⟨m, hm, hrule, -⟩ := hformer m' hm'
    rw [hrule, notedBy_append, hnoted m hm, hadded m hm, List.filter_append]
  · obtain ⟨m, hm, -, hcache⟩ := hformer m' hm'
    rw [hcache, h.caches m hm, StateTable.recordAll_append]

theorem Uniform.keeps (h : w.Uniform before since) (hkeeps : w.Keeps w') : w'.Uniform before since := by
  obtain ⟨published, htrail⟩ := hkeeps.trail
  have hnext : w'.Uniform before (since ++ []) := h.next (by rw [hkeeps.book]; rfl) htrail
    fun m _ => notedBy_map_published m.rule.name published
  rwa [List.append_nil] at hnext

theorem Uniform.served (h : w.Uniform before since) (hserved : w.Served events w')
    (hsame : w'.engine.generation = w.engine.generation) : w'.Uniform before (since ++ events) := by
  cases hserved with
  | event e hok =>
    let round : Round := ⟨w.engine.book.aliases, w.engine.generation, w.platform.now⟩
    have hall : w.engine.book.machines = [] ++ w.engine.book.machines := rfl
    obtain ⟨hviews, added, htrail, hadded⟩ :=
      passAll_of_ok hall (show w.engine.generation = round.generation from rfl) hok hsame
    refine h.next hviews htrail fun m hm => ?_
    rw [hadded, h.named m.rule (List.mem_map_of_mem hm), List.flatMap_singleton]
  | tick now hok =>
    have hunmoved := w.unmoved_tickAll now
    obtain ⟨added, htrail, hadded⟩ := hunmoved.noted
    exact h.next (hunmoved.views hsame) htrail fun m _ => hadded m.rule.name

theorem Served.renewed (hserved : w.Served events w')
    (hnew : w'.engine.generation ≠ w.engine.generation) : w'.Uniform w'.trail [] := by
  have hblank : w'.Blank w.engine.generation := by
    cases hserved with
    | event e hok => exact w.blank_processOne e
    | tick now hok => exact w.blank_tickAll now
  obtain ⟨hnamed, hcaches⟩ := hblank hnew
  exact ⟨hnamed, ⟨[], by simp, fun _ _ => rfl⟩, hcaches⟩

theorem uniform_of_load (hload : w.load rs now = (w', .ok ())) : w'.Uniform w'.trail [] := by
  obtain ⟨book, hbook, rfl⟩ := load_eq_ok hload
  exact ⟨hbook.named, ⟨[], by simp, fun _ _ => rfl⟩, fun m hm => (hbook.fresh m hm).cache⟩

/-- Whatever the way, the rules have noted the events that were processed. -/
theorem Course.uniform (hstart : start.Uniform start.trail []) (h : Course start before since w) :
    w.Uniform before since := by
  induction h with
  | start => exact hstart
  | quiet _ hquiet ih => exact ih.keeps hquiet
  | served _ hserved hsame ih => exact ih.served hserved hsame
  | renewed _ hserved hnew _ => exact hserved.renewed hnew

theorem Served.generation_le (h : w.Served events w') : w.engine.generation ≤ w'.engine.generation := by
  have hinv : Invariant fun v => w.engine.generation ≤ v.engine.generation :=
    invariant_of_grows fun hle _ h => Nat.le_trans h hle
  cases h with
  | event e => exact hinv.processOne e (Nat.le_refl _)
  | tick now => exact hinv.tickAll now (Nat.le_refl _)

/-- As long as no rules are loaded on the way, they are those of its beginning. -/
theorem Course.before_eq (h : Course start before since w) :
    start.engine.generation ≤ w.engine.generation ∧
      (w.engine.generation = start.engine.generation → before = start.trail) := by
  induction h with
  | start => exact ⟨Nat.le_refl _, fun _ => rfl⟩
  | quiet _ hquiet ih => rwa [hquiet.generation]
  | served _ hserved hsame ih => rwa [hsame]
  | renewed _ hserved hnew ih =>
    have hle := hserved.generation_le
    exact ⟨Nat.le_trans ih.1 hle, fun hsame => absurd (Nat.le_antisymm (hsame ▸ ih.1) hle) hnew⟩

/-- There is a way from the start, or a fault from outside the vocabulary of rules has come out of a pass. -/
structure OnCourse (start w : World) : Prop where
  trail : start.trail <+: w.trail
  course : start.escapes < w.escapes ∨ ∃ before since, Course start before since w

theorem OnCourse.round {result : Result Report} (h : start.OnCourse w) (htrail : w.trail <+: w'.trail)
    (hserved : ∀ report, result = .ok report → w.Served events w')
    (hbroke : ∀ fault, result = .error fault → fault.isDomain = false ∧ Breaks fault w w') :
    start.OnCourse w' := by
  refine ⟨h.trail.trans htrail, ?_⟩
  have hescapes {u v : World} (hle : u.trail <+: v.trail) : u.escapes ≤ v.escapes := hle.sublist.countP_le
  rcases h.course with hlost | ⟨before, since, hcourse⟩
  · exact .inl (Nat.lt_of_lt_of_le hlost (hescapes htrail))
  · cases hresult : result with
    | ok report =>
      have hstep := hserved report hresult
      by_cases hsame : w'.engine.generation = w.engine.generation
      · exact .inr ⟨_, _, hcourse.served hstep hsame⟩
      · exact .inr ⟨_, _, hcourse.renewed hstep hsame⟩
    | error fault =>
      obtain ⟨hforeign, added, rule, e, hlast⟩ := hbroke fault hresult
      have hone : [Happening.broke rule e fault].countP (·.isEscape) = 1 := by
        rw [List.countP_singleton, if_pos]
        simp [isEscape, hforeign]
      have hlt : w.escapes < w'.escapes := by
        rw [escapes, escapes, hlast, List.countP_append, List.countP_append, hone]
        omega
      exact .inl (Nat.lt_of_le_of_lt (hescapes h.trail) hlt)

theorem OnCourse.keeps (h : start.OnCourse w) (hkeeps : w.Keeps w') : start.OnCourse w' := by
  obtain ⟨published, htrail⟩ := hkeeps.trail
  have hgrows : w.trail <+: w'.trail := htrail ▸ List.prefix_append ..
  refine ⟨h.trail.trans hgrows, h.course.imp (Nat.lt_of_lt_of_le · hgrows.sublist.countP_le) ?_⟩
  rintro ⟨before, since, hcourse⟩
  exact ⟨before, since, hcourse.quiet hkeeps⟩

theorem invariant_onCourse (start : World) : Invariant start.OnCourse where
  bus _ h := h.keeps (.quiet rfl rfl rfl)
  queue _ _ h := h.keeps (.quiet rfl rfl rfl)
  report _ h := h.keeps (.quiet rfl rfl rfl)
  platform _ h := h.keeps (.quiet rfl rfl rfl)
  published e h := h.keeps (.published e rfl rfl (mark_trail ..))
  processOne e h :=
    h.round (stays_passAll ..).trail (fun _ => .event e) fun fault hresult =>
      ⟨(noDomainFault_passAll ..).foreign fault hresult, breaks_passAll hresult⟩
  tickAll now h :=
    h.round (stays_tickAll ..).trail (fun _ => .tick now) fun fault hresult =>
      ⟨(noDomainFault_tickAll ..).foreign fault hresult, breaks_tickAll hresult⟩

theorem changesState_eq_false {e : Event} (h : e.kind = .command ∨ e.kind = .periodic) :
    e.changesState = false := by
  rcases h with h | h <;> simp [Event.changesState, h]

/-- On any way from a load the rules have seen the updates that were processed since they were loaded, and
nothing else, and all of them the same. A run takes such a way as long as no fault from outside the vocabulary
of rules comes out of a pass. Commands and periodic events change nothing that rules have seen, however the
passes over them end. -/
theorem rules_have_seen_updates (hload : w.load rs now = (w', .ok ())) :
    (∀ before since v, Course w' before since v → v.HasSeen before since) ∧
    (∀ fuel calls, (w'.run fuel calls).escapes = w'.escapes →
      ∃ before since, Course w' before since (w'.run fuel calls) ∧
        ((w'.run fuel calls).engine.generation = w'.engine.generation → before = w'.trail)) ∧
    (∀ (v : World) (e : Event), e.kind = .command ∨ e.kind = .periodic → v.Unmoved (v.processOne e).1) ∧
    ∀ (v : World) (now : Option Moment),
      v.Unmoved (World.tickAll (v.tickRound now) 0 v.engine.book.machines v {}).1 := by
  refine ⟨fun before since v hcourse => ?_, fun fuel calls hescapes => ?_, fun v e he => ?_,
    fun v now => v.unmoved_tickAll now⟩
  · exact (hcourse.uniform (uniform_of_load hload)).hasSeen
  · have hrun := (invariant_onCourse w').run fuel calls ⟨List.prefix_rfl, .inr ⟨_, _, .start⟩⟩
    rcases hrun.course with hlost | ⟨before, since, hcourse⟩
    · omega
    · exact ⟨before, since, hcourse, hcourse.before_eq.2⟩
  · exact v.unmoved_processOne (changesState_eq_false he)

end

/-- A rule that switches the lamp on when the door opens, and one that waits for a command. -/
def porchRules : RuleSet :=
  let door : Predicate := { target := .text "door", kind := .goes, value := .openClosed .opened }
  let lamp : Predicate := { target := .text "lamp", kind := .receivesCommand }
  { rules := [
      { name := .text "light", triggers := [.device door]
        actions := [.update (.text "lamp") (.onOff .on)] },
      { name := .text "wait", triggers := [.device lamp], actions := [.fail "stuck"] }] }

def porch : World :=
  { platform := {
      now := ⟨0, none⟩
      catalog := { items := [{ name := "door", accepts := [.openClosed] },
        { name := "lamp", accepts := [.onOff] }] }
      attached := true }
    bus := ({} : Bus Listener).subscribe {} .rules }

def porchCalls : List Call :=
  [.update ⟨.item, "door"⟩ (.openClosed .opened) "user", .command ⟨.item, "lamp"⟩ (.onOff .off) "user",
    .tick none]

theorem rules_have_seen_updates_porch :
    let loaded := (porch.load porchRules none).1
    let w := loaded.run 5 porchCalls
    porch.load porchRules none = (loaded, .ok ()) ∧ w.escapes = loaded.escapes ∧
      (∃ since, w.HasSeen loaded.trail since) ∧
      (w.engine.book.machines.map fun m => (m.cache.get? ⟨.item, "lamp"⟩).map (·.equals (.onOff .on))) =
        [some true, some true] := by
  intro loaded w
  have hload : porch.load porchRules none = (loaded, .ok ()) := rfl
  have hescapes : (loaded.run 5 porchCalls).escapes = loaded.escapes := by decide +kernel
  have hgeneration : (loaded.run 5 porchCalls).engine.generation = loaded.engine.generation := by
    decide +kernel
  obtain ⟨hseen, hcourse, -⟩ := rules_have_seen_updates hload
  obtain ⟨before, since, hway, hbefore⟩ := hcourse 5 porchCalls hescapes
  obtain rfl := hbefore hgeneration
  exact ⟨hload, hescapes, ⟨since, hseen _ since _ hway⟩, by decide +kernel⟩

end Domotics.World
