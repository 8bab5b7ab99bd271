import Domotics.Proofs.Run.Call
import Domotics.Proofs.Run.Verdict

/-!
What a pass of a rule keeps. The actions of a rule update and command devices, note, count and notify, and
may hand events to the engine or load rules; what each of these deeds keeps, and what being noted in the
trail and in the record of fires keeps, every pass keeps.
-/

namespace Domotics

namespace Action

mutual

/-- An action loads rules only at times that are accepted; no time stands for the present. -/
def LoadsOnly (ok : Option Moment → Prop) : Action → Prop
  | sequence steps => AllLoadOnly ok steps
  | reload now => ok now
  | _ => True

def AllLoadOnly (ok : Option Moment → Prop) : List Action → Prop
  | [] => True
  | a :: rest => a.LoadsOnly ok ∧ AllLoadOnly ok rest

end

mutual

theorem loadsOnly_of_keepsToBus {a : Action} (ok : Option Moment → Prop) (h : a.keepsToBus = true) :
    a.LoadsOnly ok := by
  cases a with
  | sequence steps => exact allLoadOnly_of_allKeepToBus ok (by simpa [keepsToBus] using h)
  | reload now => simp [keepsToBus] at h
  | _ => trivial

theorem allLoadOnly_of_allKeepToBus {actions : List Action} (ok : Option Moment → Prop)
    (h : allKeepToBus actions = true) : AllLoadOnly ok actions := by
  cases actions with
  | nil => trivial
  | cons a rest =>
    have hboth : a.keepsToBus = true ∧ allKeepToBus rest = true := by simpa [allKeepToBus] using h
    exact ⟨loadsOnly_of_keepsToBus ok hboth.1, allLoadOnly_of_allKeepToBus ok hboth.2⟩

end

mutual

theorem loadsOnly_true (a : Action) : a.LoadsOnly fun _ => True := by
  cases a with
  | sequence steps => exact allLoadOnly_true steps
  | _ => trivial

theorem allLoadOnly_true (actions : List Action) : AllLoadOnly (fun _ => True) actions := by
  cases actions with
  | nil => trivial
  | cons a rest => exact ⟨loadsOnly_true a, allLoadOnly_true rest⟩

end

end Action

def LogLine.Untelling (line : LogLine) : Prop := ∀ r, line = .reported r → r = {}

namespace World

/-- A property of worlds that every deed of the actions of a rule keeps, which may speak of the events that
the deeds make wait. -/
structure DeedLaw (ok : Option Moment → Prop) (P : World → Prop) : Prop where
  update : ∀ {w : World} (r : Reference) (v : Value) (source : String), P w → P (w.updateWithin r v source)
  command : ∀ {w : World} (r : Reference) (v : Value) (source : String), P w → P (w.commandWithin r v source)
  process : ∀ {w : World} (e : Event), P w → P { w with engine := w.engine.enqueue e }
  note : ∀ {w : World} (line : LogLine), line.Untelling → P w → P (w.note line)
  services : ∀ {w : World} (storage : Storage) (notes : Array String), P w →
    P { w with platform := { w.platform with storage, notes } }
  mark : ∀ {w : World} (x : Happening), x.published? = none → P w → P (w.mark x)
  reload : ∀ {w : World} (now : Option Moment), ok now → P w → P (w.reload now).1

/-- A property of worlds that has nothing to do with the events that wait, and that every deed of the actions
of a rule keeps. -/
structure ActionLaw (ok : Option Moment → Prop) (P : World → Prop) : Prop extends DeviceLaw P where
  note : ∀ {w : World} (line : LogLine), P w → P (w.note line)
  services : ∀ {w : World} (storage : Storage) (notes : Array String), P w →
    P { w with platform := { w.platform with storage, notes } }
  mark : ∀ {w : World} (x : Happening), x.published? = none → P w → P (w.mark x)
  reload : ∀ {w : World} (now : Option Moment), ok now → P w → P (w.reload now).1

/-- A property of worlds that every deed in a pass keeps. -/
structure PassLaw (ok : Option Moment → Prop) (P : World → Prop) : Prop extends ActionLaw ok P where
  recorded : ∀ {w : World} (record : FiringRecord), P w →
    P { w with engine := w.engine.recordFire record }

namespace DeviceLaw

variable {P : World → Prop} (law : DeviceLaw P) {w : World}

include law

theorem deferAll (e : Event) (subscriptions : List (EventFilter × Listener)) (h : P w) :
    P (World.deferAll e subscriptions w) := by
  induction subscriptions generalizing w with
  | nil => exact h
  | cons subscription rest ih =>
    rw [World.deferAll, List.foldl_cons]
    split
    · exact ih (law.report _ (law.queue _ w.engine.draining h))
    · exact ih h

theorem foldl_deferAll (events : List Event) (subscriptions : List (EventFilter × Listener))
    (h : P w) : P (events.foldl (fun w e => World.deferAll e subscriptions w) w) := by
  induction events generalizing w with
  | nil => exact h
  | cons e rest ih => exact ih (law.deferAll e subscriptions h)

theorem publishWithin (done : Platform × Event)
    (hattached : done.1.attached = w.platform.attached)
    (h : P (w.noted done)) : P (World.publishWithin { w with platform := done.1 } done.2) := by
  rw [noted] at h
  cases hon : w.platform.attached with
  | false =>
    rw [if_neg (by simp [hon])] at h
    rwa [World.publishWithin, if_pos (by simp [hattached, hon])]
  | true =>
    rw [if_pos hon] at h
    rw [World.publishWithin, if_neg (by simp [hattached, hon])]
    dsimp only
    split
    · exact law.bus _ h
    · exact law.foldl_deferAll _ _ (law.bus _ h)

theorem updateWithin (r : Reference) (v : Value) (source : String) (h : P w) :
    P (w.updateWithin r v source) :=
  law.publishWithin (w.platform.update r v source) rfl (law.update r v source h)

theorem commandWithin (r : Reference) (v : Value) (source : String) (h : P w) :
    P (w.commandWithin r v source) := by
  have hsent := law.publishWithin (w.platform.command r v source) rfl
    (law.command r v source h)
  rw [World.commandWithin]
  dsimp only
  split
  · exact law.updateWithin r v source hsent
  · exact hsent

end DeviceLaw

theorem dispatch_keeps {P : World → Prop} {s : FiringState} (target : ActionTarget) (v : Value)
    {act : World → Reference → World}
    (hact : ∀ r, P (act s.world r)) (h : P s.world) : P (s.dispatch target v act).1.world := by
  rw [FiringState.dispatch]
  split
  · exact h
  · exact h
  · split
    · exact h
    · exact hact _

theorem ActionLaw.deeds {ok : Option Moment → Prop} {P : World → Prop} (law : ActionLaw ok P) :
    DeedLaw ok P where
  update r v source h := law.updateWithin r v source h
  command r v source h := law.commandWithin r v source h
  process _ h := law.queue _ _ h
  note line _ h := law.note line h
  services := law.services
  mark := law.mark
  reload := law.reload

namespace DeedLaw

variable {ok : Option Moment → Prop} {P : World → Prop}

section

variable (law : DeedLaw ok P)

include law

theorem logged {α : Type} {line : α → LogLine} (hline : ∀ a r, line a ≠ .reported r)
    {out : FiringState × Result α} (h : P out.1.world) : P (FiringState.logged line out).1.world := by
  rcases out with ⟨s, fault | a⟩
  · exact h
  · exact law.note _ (fun r hr => absurd hr (hline a r)) h

theorem notify {s : FiringState} (template : Document) (h : P s.world) :
    P (s.notify template).1.world := by
  rw [FiringState.notify]
  split
  · exact h
  · split
    · exact law.services s.world.platform.storage _ h
    · exact h

theorem count {s : FiringState} (store key : Document) (h : P s.world) :
    P (s.count store key).1.world := by
  rw [FiringState.count]
  split
  · exact h
  · dsimp only
    split
    · exact law.services _ s.world.platform.notes h
    · exact h

end

mutual

theorem run (law : DeedLaw ok P) {s : FiringState} {a : Action} (ha : a.LoadsOnly ok) (h : P s.world) :
    P (Action.run s a).1.world := by
  cases a with
  | command target v => exact dispatch_keeps _ v (fun r => law.command r v _ h) h
  | update target v => exact dispatch_keeps _ v (fun r => law.update r v _ h) h
  | notify template => exact law.notify template h
  | counter store key => exact law.count store key h
  | sequence steps => exact runAll law (by simpa [Action.LoadsOnly] using ha) h
  | fail message => exact h
  | record => exact law.note _ nofun h
  | send target v => exact law.logged nofun (dispatch_keeps target v (fun r => law.command r v _ h) h)
  | set target v => exact law.logged nofun (dispatch_keeps target v (fun r => law.update r v _ h) h)
  | resolve spec type => exact law.logged nofun h
  | process event => exact law.note _ (by rintro _ ⟨⟩; rfl) (law.process _ h)
  | tick => exact law.note _ (by rintro _ ⟨⟩; rfl) h
  | reload now => exact law.reload now (by simpa [Action.LoadsOnly] using ha) h
  | withoutServices => exact h

theorem runAll (law : DeedLaw ok P) {s : FiringState} {actions : List Action}
    (ha : Action.AllLoadOnly ok actions) (h : P s.world) : P (Action.runAll s actions).1.world := by
  cases actions with
  | nil => exact h
  | cons a rest =>
    have hboth : a.LoadsOnly ok ∧ Action.AllLoadOnly ok rest := by
      simpa [Action.AllLoadOnly] using ha
    have hfirst := run law hboth.1 h
    rw [Action.runAll]
    split
    · rename_i hr
      rw [hr] at hfirst
      exact runAll law hboth.2 hfirst
    · rename_i hr
      rwa [hr] at hfirst

end

theorem runEach (law : DeedLaw ok P) {s : FiringState} {actions : List Action}
    (ha : Action.AllLoadOnly ok actions) (h : P s.world) : P (Action.runEach s actions).1.world := by
  induction actions generalizing s with
  | nil => exact h
  | cons a rest ih =>
    have hboth : a.LoadsOnly ok ∧ Action.AllLoadOnly ok rest := by
      simpa [Action.AllLoadOnly] using ha
    have hfirst : P (Action.perform s a).1.world := law.mark _ rfl (law.run hboth.1 h)
    have hworld : (Action.runEach s (a :: rest)).1 = (Action.runEach (Action.perform s a).1 rest).1 := by
      rw [Action.runEach]
      rcases Action.perform s a with ⟨t, fault | ⟨⟩⟩ <;> rfl
    rw [hworld]
    exact ih hboth.2 hfirst

/-- A pass keeps the property, however it goes, if recording a fire does. -/
theorem handle (law : DeedLaw ok P)
    (hrecorded : ∀ {w : World} (record : FiringRecord), P w → P { w with engine := w.engine.recordFire record })
    {m : Machine} {w : World} (ha : Action.AllLoadOnly ok m.rule.actions) (aliases : AliasRegistry) (e : Event)
    (now : Moment) (h : P w) : P (m.handle aliases w e now).world := by
  have hbegun : P (w.mark (.began m.rule.name e)) := law.mark _ rfl h
  have hafter : P (m.afterActions aliases (w.mark (.began m.rule.name e)) e now) :=
    law.runEach ha hbegun
  have hhandled := m.handled_handle aliases w e now
  generalize m.handle aliases w e now = pass at hhandled ⊢
  cases hhandled with
  | broke => exact law.mark _ rfl hbegun
  | rested => exact law.mark _ rfl hbegun
  | fired record _ _ heq =>
    subst heq
    exact law.mark _ rfl (hrecorded record hafter)
  | unplanned _ _ heq =>
    subst heq
    exact law.mark _ rfl hafter

theorem handleTick (law : DeedLaw ok P)
    (hrecorded : ∀ {w : World} (record : FiringRecord), P w → P { w with engine := w.engine.recordFire record })
    {m : Machine} {w : World} (ha : Action.AllLoadOnly ok m.rule.actions) (aliases : AliasRegistry)
    (now : Moment) (h : P w) : P (m.handleTick aliases w now).world := by
  have hpass := law.handle hrecorded ha aliases (.tick now) now h
  have hticked := m.ticked_handleTick aliases w now
  generalize m.handleTick aliases w now = tick at hticked ⊢
  cases hticked with
  | notDue => exact h
  | unknown fault => exact law.mark _ rfl h
  | passed => exact hpass
  | unplanned fault => exact law.mark _ rfl hpass

end DeedLaw

theorem ActionLaw.runEach {ok : Option Moment → Prop} {P : World → Prop} (law : ActionLaw ok P)
    {s : FiringState} {actions : List Action} (ha : Action.AllLoadOnly ok actions) (h : P s.world) :
    P (Action.runEach s actions).1.world :=
  law.deeds.runEach ha h

namespace PassLaw

variable {ok : Option Moment → Prop} {P : World → Prop} (law : PassLaw ok P) {m : Machine} {w : World}

include law

theorem handle (ha : Action.AllLoadOnly ok m.rule.actions) (aliases : AliasRegistry) (e : Event) (now : Moment)
    (h : P w) : P (m.handle aliases w e now).world :=
  law.deeds.handle law.recorded ha aliases e now h

theorem handleTick (ha : Action.AllLoadOnly ok m.rule.actions) (aliases : AliasRegistry) (now : Moment)
    (h : P w) : P (m.handleTick aliases w now).world :=
  law.deeds.handleTick law.recorded ha aliases now h

end PassLaw
end World
end Domotics
