import Domotics.Proofs.Run.Deed

/-!
The line of events that wait for the rules. Events join it at its end; the rules are handed the first of it,
each rule in turn until a pass breaks; and when rules are loaded, nobody is left in the line. A pass of a rule
only lets events join, from the bus or from its own actions, or loads rules.
-/

namespace Domotics

def Result.fault? {α : Type} : Result α → Option Fault
  | .ok _ => none
  | .error fault => some fault

/-- The names of the loaded rules, and the events that wait for them. -/
structure Line where
  rules : List Document
  waiting : List Event

/-- The ends of some passes, each with its rule and with the fault that broke it, if one did. -/
abbrev PassEnds := List (Document × Option Fault)

/-- Some rules, each in its turn, come to the end of a pass. The first that breaks is the last. -/
inductive InTurn : List Document → PassEnds → Prop where
  | nil : InTurn [] []
  | passed {rule : Document} {rest : List Document} {ends : PassEnds} (h : InTurn rest ends) :
      InTurn (rule :: rest) ((rule, none) :: ends)
  | broke (rule : Document) (rest : List Document) (f : Fault) : InTurn (rule :: rest) [(rule, some f)]

/-- What can happen to a line: an event joins it, from the bus or in another way, the first event is handed
to the rules, the rules look for periodic events, or rules are loaded. -/
inductive Turn where
  | joined (e : Event) (fromBus : Bool)
  | handed (e : Event) (ends : PassEnds)
  | ticked (now : Moment) (ends : PassEnds)
  | renewed (rules : List Document)

namespace Turn

def joined? : Turn → Option Event
  | joined e _ => some e
  | _ => none

def fromBus? : Turn → Option Event
  | joined e true => some e
  | _ => none

def handed? : Turn → Option Event
  | handed e _ => some e
  | _ => none

def renews : Turn → Bool
  | renewed _ => true
  | _ => false

def isInner : Turn → Bool
  | joined .. | renewed _ => true
  | _ => false

def passes : Turn → List (Document × Event × Option Fault)
  | handed e ends => ends.map fun x => (x.1, e, x.2)
  | ticked now ends => ends.map fun x => (x.1, .tick now, x.2)
  | _ => []

def joinedIn (turns : List Turn) : List Event := turns.filterMap joined?

def fromBusIn (turns : List Turn) : List Event := turns.filterMap fromBus?

def handedIn (turns : List Turn) : List Event := turns.filterMap handed?

def passesIn (turns : List Turn) : List (Document × Event × Option Fault) := turns.flatMap passes

def faultsIn (turns : List Turn) : List Fault := (passesIn turns).filterMap (·.2.2)

inductive Takes : Line → Turn → Line → Prop where
  | joined (l : Line) (e : Event) (fromBus : Bool) :
      Takes l (.joined e fromBus) { l with waiting := l.waiting ++ [e] }
  | handed {rules : List Document} {e : Event} {rest : List Event} {ends : PassEnds} (h : InTurn rules ends) :
      Takes ⟨rules, e :: rest⟩ (.handed e ends) ⟨rules, rest⟩
  | ticked {l : Line} {now : Moment} {ends : PassEnds} (h : ∀ x ∈ ends, x.1 ∈ l.rules) :
      Takes l (.ticked now ends) l
  | renewed (l : Line) (rules : List Document) : Takes l (.renewed rules) ⟨rules, []⟩

inductive Runs : Line → List Turn → Line → Prop where
  | nil (l : Line) : Runs l [] l
  | cons {l mid l' : Line} {turn : Turn} {turns : List Turn} (first : Takes l turn mid)
      (later : Runs mid turns l') : Runs l (turn :: turns) l'

/-- An event is handed to the rules, then comes what can happen in their passes, and so on. -/
inductive Rounds : List Turn → Prop where
  | nil : Rounds []
  | cons (e : Event) (ends : PassEnds) {inner later : List Turn} (hinner : ∀ t ∈ inner, t.isInner = true)
      (h : Rounds later) : Rounds (.handed e ends :: inner ++ later)

theorem joinedIn_cons (t : Turn) (turns : List Turn) :
    joinedIn (t :: turns) = t.joined?.toList ++ joinedIn turns := by
  cases t <;> rfl

theorem handedIn_cons (t : Turn) (turns : List Turn) :
    handedIn (t :: turns) = t.handed?.toList ++ handedIn turns := by
  cases t <;> rfl

theorem fromBusIn_cons (t : Turn) (turns : List Turn) :
    fromBusIn (t :: turns) = t.fromBus?.toList ++ fromBusIn turns := by
  cases t with
  | joined e fromBus => cases fromBus <;> rfl
  | handed | ticked | renewed => rfl

@[simp] theorem fromBusIn_append (s t : List Turn) : fromBusIn (s ++ t) = fromBusIn s ++ fromBusIn t :=
  List.filterMap_append

@[simp] theorem handedIn_append (s t : List Turn) : handedIn (s ++ t) = handedIn s ++ handedIn t :=
  List.filterMap_append

@[simp] theorem passesIn_append (s t : List Turn) : passesIn (s ++ t) = passesIn s ++ passesIn t :=
  List.flatMap_append

@[simp] theorem faultsIn_append (s t : List Turn) : faultsIn (s ++ t) = faultsIn s ++ faultsIn t := by
  rw [faultsIn, passesIn_append, List.filterMap_append, faultsIn, faultsIn]

theorem faults_handed (e : Event) (ends : PassEnds) :
    (handed e ends).passes.filterMap (·.2.2) = ends.filterMap (·.2) := by
  rw [passes, List.filterMap_map]
  rfl

theorem faults_ticked (now : Moment) (ends : PassEnds) :
    (ticked now ends).passes.filterMap (·.2.2) = ends.filterMap (·.2) := by
  rw [passes, List.filterMap_map]
  rfl

theorem fromBusIn_map_joined (events : List Event) : fromBusIn (events.map (.joined · true)) = events := by
  rw [fromBusIn, List.filterMap_map]
  exact List.filterMap_some

theorem isInner_of_mem_map_joined {events : List Event} {fromBus : Bool} :
    ∀ t ∈ events.map (joined · fromBus), t.isInner = true := by
  intro t ht
  obtain ⟨e, -, rfl⟩ := List.mem_map.mp ht
  rfl

theorem passesIn_of_isInner {turns : List Turn} (h : ∀ t ∈ turns, t.isInner = true) : passesIn turns = [] := by
  refine List.flatMap_eq_nil_iff.mpr fun t ht => ?_
  have hinner := h t ht
  cases t <;> first | rfl | cases hinner

theorem handedIn_of_isInner {turns : List Turn} (h : ∀ t ∈ turns, t.isInner = true) : handedIn turns = [] := by
  refine List.filterMap_eq_nil_iff.mpr fun t ht => ?_
  have hinner := h t ht
  cases t <;> first | rfl | cases hinner

theorem Rounds.mem_handedIn {turns : List Turn} (h : Rounds turns) :
    ∀ x ∈ passesIn turns, x.2.1 ∈ handedIn turns := by
  induction h with
  | nil => simp [passesIn]
  | cons e ends hinner _ ih =>
    intro x hx
    rw [List.cons_append, passesIn, List.flatMap_cons, List.mem_append, ← passesIn, passesIn_append,
      passesIn_of_isInner hinner, List.nil_append] at hx
    rw [List.cons_append, handedIn_cons, List.mem_append, handedIn_append, handedIn_of_isInner hinner]
    rcases hx with hx | hx
    · obtain ⟨y, -, rfl⟩ := List.mem_map.mp hx
      exact .inl (List.mem_singleton_self _)
    · exact .inr (ih x hx)

theorem Rounds.handedIn_ne_nil {turns earlier later : List Turn} {t : Turn} (h : Rounds turns)
    (hturns : turns = earlier ++ t :: later) (ht : t.isInner = true) : handedIn earlier ≠ [] := by
  cases h with
  | nil => simp at hturns
  | cons e ends _ _ =>
    cases earlier with
    | nil =>
      rw [List.cons_append, List.nil_append] at hturns
      obtain ⟨rfl, -⟩ := List.cons.inj hturns
      cases ht
    | cons first earlier =>
      rw [List.cons_append, List.cons_append] at hturns
      obtain ⟨rfl, -⟩ := List.cons.inj hturns
      simp [handedIn_cons, handed?]

end Turn

open Turn

theorem Turn.Takes.eq_of_joined {l l' : Line} {e : Event} {fromBus : Bool} (h : Takes l (.joined e fromBus) l') :
    l' = { l with waiting := l.waiting ++ [e] } := by
  cases h
  rfl

theorem InTurn.map_fst {rules : List Document} {ends : PassEnds} (h : InTurn rules ends)
    (hwhole : ∀ x ∈ ends, x.2 = none) : ends = rules.map (·, none) := by
  induction h with
  | nil => rfl
  | passed _ ih => rw [List.map_cons, ih fun x hx => hwhole x (List.mem_cons_of_mem _ hx)]
  | broke rule rest f => cases hwhole _ (List.mem_singleton_self _)

namespace Turn.Runs

variable {l mid l' : Line} {turns later : List Turn}

theorem single {turn : Turn} (h : Takes l turn l') : Runs l [turn] l' := .cons h (.nil l')

theorem eq_of_nil (h : Runs l [] l') : l = l' := by
  cases h
  rfl

theorem append (h₁ : Runs l turns mid) (h₂ : Runs mid later l') : Runs l (turns ++ later) l' := by
  induction h₁ with
  | nil => exact h₂
  | cons first _ ih => exact .cons first (ih h₂)

theorem joins (l : Line) (events : List Event) (fromBus : Bool) :
    Runs l (events.map (.joined · fromBus)) { l with waiting := l.waiting ++ events } := by
  induction events generalizing l with
  | nil =>
    rw [List.append_nil]
    exact .nil l
  | cons e rest ih =>
    have hrest := ih { l with waiting := l.waiting ++ [e] }
    rw [List.append_assoc] at hrest
    exact .cons (.joined l e fromBus) hrest

/-- As long as no rules are loaded, the events are handed to the rules in the order in which they joined, and
those that have not been handed to them wait. -/
theorem inOrder (h : Runs l turns l') (hsame : ∀ t ∈ turns, t.renews = false) :
    l'.rules = l.rules ∧ handedIn turns ++ l'.waiting = l.waiting ++ joinedIn turns := by
  induction h with
  | nil l => exact ⟨rfl, by simp [handedIn, joinedIn]⟩
  | @cons l mid l' turn turns first _ ih =>
    obtain ⟨hone, hothers⟩ := List.forall_mem_cons.mp hsame
    obtain ⟨hrules, horder⟩ := ih hothers
    rw [joinedIn_cons, handedIn_cons]
    cases first with
    | joined e fromBus => exact ⟨hrules, by simpa [handed?, joined?] using horder⟩
    | handed h => exact ⟨hrules, by simpa [handed?, joined?] using horder⟩
    | ticked h => exact ⟨hrules, by simpa [handed?, joined?] using horder⟩
    | renewed rules => cases hone

/-- Whatever is loaded, no event is handed to the rules more often than it joined, and each in its turn. -/
theorem sublist (h : Runs l turns l') :
    List.Sublist (handedIn turns ++ l'.waiting) (l.waiting ++ joinedIn turns) := by
  induction h with
  | nil l => simp [handedIn, joinedIn]
  | @cons l mid l' turn turns first _ ih =>
    rw [joinedIn_cons, handedIn_cons]
    cases first with
    | joined e fromBus => simpa [handed?, joined?] using ih
    | handed h => simpa [handed?, joined?] using ih
    | ticked h => simpa [handed?, joined?] using ih
    | renewed rules => exact ih.trans (List.sublist_append_right ..)

end Turn.Runs

/-- What becomes of an event in a line when others are before it. Either it is handed to the rules after them,
or rules are loaded before its turn comes, or it waits still. -/
inductive Fate (rules : List Document) (before : List Event) (e : Event) (turns : List Turn) (l' : Line) :
    Prop where
  | handed {earlier later : List Turn} {ends : PassEnds} (hturns : turns = earlier ++ .handed e ends :: later)
      (hsame : ∀ t ∈ earlier, t.renews = false) (hbefore : handedIn earlier = before) (hends : InTurn rules ends)
  | dropped {earlier later : List Turn} {others : List Document}
      (hturns : turns = earlier ++ .renewed others :: later) (hsame : ∀ t ∈ earlier, t.renews = false)
      (hbefore : handedIn earlier <+: before)
  | waits {left behind : List Event} (hsame : ∀ t ∈ turns, t.renews = false)
      (hbefore : before = handedIn turns ++ left) (hwaiting : l'.waiting = left ++ e :: behind)

theorem Fate.cons {rules : List Document} {before : List Event} {e : Event} (turn : Turn) {turns : List Turn}
    {l' : Line} (h : Fate rules before e turns l') (hturn : turn.renews = false) :
    Fate rules (turn.handed?.toList ++ before) e (turn :: turns) l' := by
  have hall {turns : List Turn} (hsame : ∀ t ∈ turns, t.renews = false) : ∀ t ∈ turn :: turns, t.renews = false :=
    List.forall_mem_cons.mpr ⟨hturn, hsame⟩
  cases h with
  | handed hturns hsame hbefore hends =>
    exact .handed (by rw [hturns, List.cons_append]) (hall hsame) (by rw [handedIn_cons, hbefore]) hends
  | dropped hturns hsame hbefore =>
    refine .dropped (by rw [hturns, List.cons_append]) (hall hsame) ?_
    rw [handedIn_cons]
    exact (List.prefix_append_right_inj _).mpr hbefore
  | waits hsame hbefore hwaiting =>
    exact .waits (hall hsame) (by rw [handedIn_cons, hbefore, List.append_assoc]) hwaiting

theorem Turn.Runs.fate {l l' : Line} {turns : List Turn} {before after : List Event} {e : Event}
    (h : Runs l turns l') (hl : l.waiting = before ++ e :: after) : Fate l.rules before e turns l' := by
  induction h generalizing before after with
  | nil l => exact .waits (by simp) (by simp [handedIn]) hl
  | @cons l mid l' turn turns first _ ih =>
    cases first with
    | joined _ x fromBus =>
      have hjoined : before ++ e :: after ++ [x] = before ++ e :: (after ++ [x]) := by simp
      exact Fate.cons (.joined x fromBus) (ih ((congrArg (· ++ [x]) hl).trans hjoined)) rfl
    | @handed rules x rest ends hends =>
      cases before with
      | nil =>
        obtain ⟨rfl, -⟩ := List.cons.inj hl
        exact .handed (List.nil_append _).symm (by simp) rfl hends
      | cons y before =>
        obtain ⟨rfl, hrest⟩ := List.cons.inj hl
        exact Fate.cons (.handed x ends) (ih hrest) rfl
    | @ticked _ now ends => exact Fate.cons (.ticked now ends) (ih hl) rfl
    | renewed others => exact .dropped (List.nil_append _).symm (by simp) List.nil_prefix

namespace Happening

def ended? : Happening → Option (Document × Event × Option Fault)
  | passed o => some (o.rule, o.event, none)
  | broke rule e f => some (rule, e, some f)
  | _ => none

def endedIn (trail : List Happening) : List (Document × Event × Option Fault) := trail.filterMap ended?

@[simp] theorem endedIn_append (t u : List Happening) : endedIn (t ++ u) = endedIn t ++ endedIn u :=
  List.filterMap_append

theorem endedIn_pass {rule : Document} {e : Event} {inner : List Happening} (last : Happening)
    (h : ∀ x ∈ inner, x.isInner = true) :
    endedIn (.began rule e :: inner ++ [last]) = last.ended?.toList :=
  filterMap_pass (fun x hx => by cases x <;> simp_all [endsPass, ended?]) last h

end Happening

namespace World

open Happening

def line (w : World) : Line := ⟨w.engine.ruleNames, w.engine.pending⟩

/-- What some events are to subscribers: each of them once to every subscriber that wants it. -/
def copies (subscriptions : List (EventFilter × Listener)) (events : List Event) : List Event :=
  events.flatMap fun e => (subscriptions.filter (·.1.accepts e)).map fun _ => e

/-- `w` becomes `w'` and `added` happens, while these turns are taken at the line. What is published waits on the
bus during a delivery; otherwise it comes from the bus to the line. -/
structure Shifts (w : World) (turns : List Turn) (w' : World) (added : List Happening) : Prop where
  trail : w'.trail = w.trail ++ added
  line : Runs w.line turns w'.line
  generation : w'.engine.generation = w.engine.generation + turns.countP (·.renews)
  subscriptions : w'.bus.subscriptions = w.bus.subscriptions
  dispatching : w'.bus.dispatching = w.bus.dispatching
  queue : w.bus.dispatching = false → w.bus.queue = [] → w'.bus.queue = []
  held : w.bus.dispatching = true → fromBusIn turns = []
  relayed : fromBusIn turns ++ copies w.bus.subscriptions w'.bus.queue =
    copies w.bus.subscriptions (w.bus.queue ++ publishedIn added)

@[simp] theorem copies_append (subscriptions : List (EventFilter × Listener)) (events later : List Event) :
    copies subscriptions (events ++ later) = copies subscriptions events ++ copies subscriptions later :=
  List.flatMap_append

@[simp] theorem copies_nil (subscriptions : List (EventFilter × Listener)) : copies subscriptions [] = [] := rfl

namespace Shifts

variable {w w' w'' : World} {turns later : List Turn} {added next : List Happening}

theorem trans (h₁ : w.Shifts turns w' added) (h₂ : w'.Shifts later w'' next) :
    w.Shifts (turns ++ later) w'' (added ++ next) where
  trail := by rw [h₂.trail, h₁.trail, List.append_assoc]
  line := h₁.line.append h₂.line
  generation := by rw [h₂.generation, h₁.generation, List.countP_append, Nat.add_assoc]
  subscriptions := h₂.subscriptions.trans h₁.subscriptions
  dispatching := h₂.dispatching.trans h₁.dispatching
  queue hdispatching hqueue := h₂.queue (h₁.dispatching.trans hdispatching) (h₁.queue hdispatching hqueue)
  held hdispatching := by
    rw [fromBusIn_append, h₁.held hdispatching, h₂.held (h₁.dispatching.trans hdispatching)]
    rfl
  relayed := by
    have hlater := h₂.relayed
    rw [h₁.subscriptions] at hlater
    rw [fromBusIn_append, List.append_assoc, hlater, copies_append, ← List.append_assoc, h₁.relayed,
      publishedIn_append, copies_append, copies_append, copies_append, List.append_assoc]

theorem quiet (hnames : w'.engine.ruleNames = w.engine.ruleNames) (hpending : w'.engine.pending = w.engine.pending)
    (hgeneration : w'.engine.generation = w.engine.generation) (hbus : w'.bus = w.bus)
    (htrail : w'.trail = w.trail) : w.Shifts [] w' [] where
  trail := by rw [htrail, List.append_nil]
  line := by
    rw [World.line, World.line, hnames, hpending]
    exact .nil _
  generation := hgeneration
  subscriptions := by rw [hbus]
  dispatching := by rw [hbus]
  queue _ hqueue := by rw [hbus, hqueue]
  held _ := rfl
  relayed := by simp [hbus, fromBusIn, publishedIn]

theorem refl (w : World) : w.Shifts [] w [] := quiet rfl rfl rfl rfl rfl

theorem mark (w : World) (x : Happening) (hx : x.published? = none) : w.Shifts [] (w.mark x) [x] where
  trail := mark_trail ..
  line := .nil _
  generation := rfl
  subscriptions := rfl
  dispatching := rfl
  queue _ h := h
  held _ := rfl
  relayed := by simp [fromBusIn, publishedIn, hx]

theorem joined (w : World) (e : Event) :
    w.Shifts [.joined e false] { w with engine := w.engine.enqueue e } [] where
  trail := by simp [World.trail]
  line := .single (.joined ..)
  generation := rfl
  subscriptions := rfl
  dispatching := rfl
  queue _ h := h
  held _ := rfl
  relayed := by simp [fromBusIn, fromBus?, publishedIn]

end Shifts

section

variable (w : World)

theorem deferAll_pending (e : Event) (subscriptions : List (EventFilter × Listener)) :
    ∃ reports, deferAll e subscriptions w =
      { w with
        engine := { w.engine with pending := w.engine.pending ++ copies subscriptions [e] }
        journal := { w.journal with reports } } := by
  obtain ⟨reports, h⟩ := deferAll_eq e subscriptions w
  exact ⟨reports, by rw [h, copies, List.flatMap_singleton]⟩

theorem foldl_deferAll_pending (events : List Event) (subscriptions : List (EventFilter × Listener)) :
    ∃ reports, events.foldl (fun w e => deferAll e subscriptions w) w =
      { w with
        engine := { w.engine with pending := w.engine.pending ++ copies subscriptions events }
        journal := { w.journal with reports } } := by
  induction events generalizing w with
  | nil => exact ⟨w.journal.reports, by simp⟩
  | cons e rest ih =>
    obtain ⟨reports, hfirst⟩ := deferAll_pending w e subscriptions
    obtain ⟨reports', hrest⟩ := ih (deferAll e subscriptions w)
    refine ⟨reports', ?_⟩
    rw [List.foldl_cons, hrest, hfirst, List.append_assoc, ← copies_append, List.singleton_append]

theorem shifts_enqueue (e : Event) (hdispatching : w.bus.dispatching = true) :
    w.Shifts [] { w.mark (.published e) with bus := w.bus.enqueue e } [.published e] where
  trail := mark_trail ..
  line := .nil _
  generation := rfl
  subscriptions := rfl
  dispatching := rfl
  queue hidle := by simp [hdispatching] at hidle
  held _ := rfl
  relayed := by simp [fromBusIn, publishedIn, published?, Bus.enqueue]

theorem shifts_deliver (e : Event) (hdispatching : w.bus.dispatching = false) :
    w.Shifts ((copies w.bus.subscriptions (w.bus.queue ++ [e])).map (.joined · true))
      ((w.bus.queue ++ [e]).foldl (fun v e => deferAll e w.bus.subscriptions v)
        { w.mark (.published e) with bus := { w.bus with queue := [] } }) [.published e] := by
  let start : World := { w.mark (.published e) with bus := { w.bus with queue := [] } }
  obtain ⟨reports, hfold⟩ := foldl_deferAll_pending start (w.bus.queue ++ [e]) w.bus.subscriptions
  rw [hfold]
  refine ⟨mark_trail .., Runs.joins w.line _ true, ?_, rfl, rfl, fun _ _ => rfl, fun hbusy => ?_, ?_⟩
  · rw [List.countP_map]
    simp [start, renews, Function.comp_def]
  · simp [hdispatching] at hbusy
  · rw [fromBusIn_map_joined]
    simp [start, publishedIn, published?]

/-- `w` becomes `w'`, and at the line nothing is done but what can be done during the pass of a rule. -/
def ShiftsWithin (w' : World) : Prop :=
  ∃ turns added, (∀ t ∈ turns, t.isInner = true) ∧ w.Shifts turns w' added

end


namespace ShiftsWithin

variable {w w' w'' : World}

theorem trans (h₁ : w.ShiftsWithin w') (h₂ : w'.ShiftsWithin w'') : w.ShiftsWithin w'' := by
  obtain ⟨turns, added, hinner, hfirst⟩ := h₁
  obtain ⟨later, next, hinner', hlater⟩ := h₂
  refine ⟨turns ++ later, added ++ next, fun t ht => ?_, hfirst.trans hlater⟩
  rcases List.mem_append.mp ht with ht | ht
  · exact hinner t ht
  · exact hinner' t ht

theorem of {added : List Happening} (h : w.Shifts [] w' added) : w.ShiftsWithin w' := ⟨[], added, by simp, h⟩

theorem publishWithin (w : World) (e : Event) : w.ShiftsWithin (w.publishWithin e) := by
  cases hattached : w.platform.attached with
  | false =>
    rw [World.publishWithin, if_pos (by simp [hattached])]
    exact .of (.refl w)
  | true =>
    cases hdispatching : w.bus.dispatching with
    | true =>
      have heq : w.publishWithin e = { w.mark (.published e) with bus := w.bus.enqueue e } := by
        simp [World.publishWithin, hattached, hdispatching]
      rw [heq]
      exact .of (shifts_enqueue w e hdispatching)
    | false =>
      have heq : w.publishWithin e = (w.bus.queue ++ [e]).foldl
          (fun v e => deferAll e w.bus.subscriptions v)
          { w.mark (.published e) with bus := { w.bus with queue := [] } } := by
        simp [World.publishWithin, hattached, hdispatching, Bus.enqueue]
      rw [heq]
      exact ⟨_, _, isInner_of_mem_map_joined, shifts_deliver w e hdispatching⟩

theorem updateWithin (w : World) (r : Reference) (v : Value) (source : String) :
    w.ShiftsWithin (w.updateWithin r v source) := by
  have hplatform : w.Shifts [] { w with platform := (w.platform.update r v source).1 } [] :=
    .quiet rfl rfl rfl rfl rfl
  exact (ShiftsWithin.of hplatform).trans (publishWithin _ _)

theorem commandWithin (w : World) (r : Reference) (v : Value) (source : String) :
    w.ShiftsWithin (w.commandWithin r v source) := by
  have hplatform : w.Shifts [] { w with platform := (w.platform.command r v source).1 } [] :=
    .quiet rfl rfl rfl rfl rfl
  have hsent := (ShiftsWithin.of hplatform).trans (publishWithin _ (w.platform.command r v source).2)
  rw [World.commandWithin]
  dsimp only
  split
  · exact hsent.trans (updateWithin _ r v source)
  · exact hsent

theorem load (w : World) (rs : RuleSet) (now : Option Moment) : w.ShiftsWithin (w.load rs now).1 := by
  rw [World.load, Engine.load]
  cases RuleBook.build rs (now.getD w.platform.now) w.platform.solar with
  | error fault => exact .of (.quiet rfl rfl rfl rfl rfl)
  | ok book =>
    refine ⟨[.renewed (book.machines.map (·.rule.name))], [], by simp [Turn.isInner], ?_⟩
    exact {
      trail := by simp [trail]
      line := .single (.renewed ..)
      generation := rfl
      subscriptions := rfl
      dispatching := rfl
      queue := fun _ h => h
      held := fun _ => rfl
      relayed := by simp [fromBusIn, fromBus?, publishedIn] }

theorem deeds (start : World) : DeedLaw (fun _ => True) start.ShiftsWithin where
  update r v source h := h.trans (updateWithin _ r v source)
  command r v source h := h.trans (commandWithin _ r v source)
  process e h := h.trans ⟨[.joined e false], [], by simp [Turn.isInner], .joined _ e⟩
  note line _ h := h.trans (.of (.quiet rfl rfl rfl rfl rfl))
  services storage notes h := h.trans (.of (.quiet rfl rfl rfl rfl rfl))
  mark x hx h := h.trans (.of (.mark _ x hx))
  reload {w} now _ h := h.trans
    (reload_keeps now (fun x hx h => h.trans (.of (.mark _ x hx))) (load w w.lastRuleSet now))

end ShiftsWithin

end World

namespace Machine

open World Happening

variable (m : Machine) (aliases : AliasRegistry) (w : World) (e : Event) (now : Moment)

theorem shiftsWithin_recorded {start w : World} (record : FiringRecord) (h : start.ShiftsWithin w) :
    start.ShiftsWithin { w with engine := w.engine.recordFire record } :=
  h.trans (.of (.quiet rfl rfl rfl rfl rfl))

/-- A pass of a rule comes to one end, and only lets events join the line or loads rules. -/
theorem shifts_handle : ∃ turns added, (∀ t ∈ turns, t.isInner = true) ∧
    w.Shifts turns (m.handle aliases w e now).world added ∧
    endedIn added = [(m.rule.name, e, Result.fault? (m.handle aliases w e now).result)] := by
  obtain ⟨turns, added, hinner, hshifts⟩ := (ShiftsWithin.deeds w).handle shiftsWithin_recorded
    (Action.allLoadOnly_true m.rule.actions) aliases e now (.of (.refl w))
  refine ⟨turns, added, hinner, hshifts, ?_⟩
  obtain ⟨inner, hacts, hin, hwhole⟩ := m.acts_handle aliases w e now
  rw [List.append_cancel_left (hshifts.trail.symm.trans hacts.trail), endedIn_pass _ hin]
  cases hresult : (m.handle aliases w e now).result with
  | error fault => rfl
  | ok o =>
    have hpass := (hwhole o hresult).2
    simp [ending, ended?, Result.fault?, show o.rule = m.rule.name from hpass.rule,
      show o.event = e from hpass.event]

/-- So does a periodic event, if a pass is due; planning the next one may break after it. -/
theorem shifts_handleTick : ∃ turns added, ∃ ends : List (Option Fault), (∀ t ∈ turns, t.isInner = true) ∧
    w.Shifts turns (m.handleTick aliases w now).world added ∧
    endedIn added = ends.map (m.rule.name, .tick now, ·) ∧
    ends.filterMap id = (Result.fault? (m.handleTick aliases w now).result).toList := by
  obtain ⟨turns, added, hinner, hshifts, hends⟩ := m.shifts_handle aliases w (.tick now) now
  rw [handleTick]
  split
  · next fault _ => exact ⟨[], _, [some fault], by simp, .mark w _ rfl, rfl, rfl⟩
  · exact ⟨[], [], [], by simp, .refl w, rfl, rfl⟩
  · generalize m.handle aliases w (.tick now) now = pass at hshifts hends ⊢
    dsimp only
    cases hresult : pass.result with
    | error fault => exact ⟨turns, added, [some fault], hinner, hshifts, by rw [hends, hresult]; rfl, rfl⟩
    | ok o =>
      have hends : endedIn added = [none].map (m.rule.name, .tick now, ·) := by rw [hends, hresult]; rfl
      dsimp only
      split_ifs
      · exact ⟨turns, added, [none], hinner, hshifts, hends, rfl⟩
      · rcases pass.machine.retrigger.consume now w.platform.solar with ⟨retrigger, fault | ⟨⟩⟩
        · refine ⟨turns ++ [], _, [none, some fault], by simpa using hinner, hshifts.trans (.mark _ _ rfl), ?_, rfl⟩
          rw [endedIn_append, hends]
          rfl
        · exact ⟨turns, added, [none], hinner, hshifts, hends, rfl⟩

end Machine
end Domotics
