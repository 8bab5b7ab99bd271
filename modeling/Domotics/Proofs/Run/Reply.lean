import Domotics.Proofs.Run.Deed
import Domotics.Proofs.Run.Round

/-!
What the engine answers while it is at work. An event that an action submits, itself or over the bus, waits until its
turn comes, and whoever submits it is given an empty report. What comes of the event is told to the call from outside.
-/

namespace Domotics.World

/-- Since a world was as before, nobody has been given a report other than an empty one. -/
structure Untold (before w : World) : Prop where
  reports : ∃ n, w.journal.reports.toList = before.journal.reports.toList ++ List.replicate n ({} : Report)
  log : ∃ lines, w.journal.log.toList = before.journal.log.toList ++ lines ∧ ∀ line ∈ lines, line.Untelling

namespace Untold

variable {before w w' : World}

theorem refl (w : World) : w.Untold w := ⟨⟨0, by simp⟩, [], by simp, by simp⟩

theorem frame (h : before.Untold w) (hreports : w'.journal.reports = w.journal.reports)
    (hlog : w'.journal.log = w.journal.log) : before.Untold w' :=
  ⟨by rw [hreports]; exact h.reports, by rw [hlog]; exact h.log⟩

theorem platform (h : before.Untold w) (platform : Platform) : before.Untold { w with platform } := h.frame rfl rfl

theorem enqueue (h : before.Untold w) (e : Event) : before.Untold { w with engine := w.engine.enqueue e } :=
  h.frame rfl rfl

theorem setDraining (h : before.Untold w) (flag : Bool) : before.Untold (w.setDraining flag) := h.frame rfl rfl

theorem report (h : before.Untold w) : before.Untold (w.report {}) := by
  obtain ⟨n, hreports⟩ := h.reports
  exact ⟨⟨n + 1, by simp [World.report, hreports, List.replicate_succ']⟩, h.log⟩

theorem note (h : before.Untold w) {line : LogLine} (hline : line.Untelling) : before.Untold (w.note line) := by
  obtain ⟨lines, hlog, hempty⟩ := h.log
  have hall : ∀ x ∈ lines ++ [line], x.Untelling :=
    List.forall_mem_append.mpr ⟨hempty, List.forall_mem_singleton.mpr hline⟩
  exact ⟨h.reports, lines ++ [line], by simp [World.note, hlog], hall⟩

theorem deferAll (h : before.Untold w) (e : Event) (subscriptions : List (EventFilter × Listener)) :
    before.Untold (World.deferAll e subscriptions w) := by
  induction subscriptions generalizing w with
  | nil => exact h
  | cons subscription rest ih =>
    rw [World.deferAll, List.foldl_cons]
    split
    · exact ih (h.enqueue e).report
    · exact ih h

theorem publishWithin (h : before.Untold w) (e : Event) : before.Untold (w.publishWithin e) := by
  rw [World.publishWithin]
  split
  · exact h
  · dsimp only
    split
    · exact h.frame rfl rfl
    · exact List.foldlRecOn _ _ (h.frame rfl rfl) fun _ hv x _ => hv.deferAll x _

theorem updateWithin (h : before.Untold w) (r : Reference) (v : Value) (source : String) :
    before.Untold (w.updateWithin r v source) :=
  (h.platform _).publishWithin _

theorem commandWithin (h : before.Untold w) (r : Reference) (v : Value) (source : String) :
    before.Untold (w.commandWithin r v source) := by
  have hsent := (h.platform (w.platform.command r v source).1).publishWithin (w.platform.command r v source).2
  rw [World.commandWithin]
  dsimp only
  split
  · exact hsent.updateWithin r v source
  · exact hsent

theorem load (h : before.Untold w) (rs : RuleSet) (now : Option Moment) : before.Untold (w.load rs now).1 := by
  rw [World.load, Engine.load]
  cases RuleBook.build rs (now.getD w.platform.now) w.platform.solar <;> exact h.frame rfl rfl

theorem deeds (before : World) : DeedLaw (fun _ => True) before.Untold where
  update r v source h := h.updateWithin r v source
  command r v source h := h.commandWithin r v source
  process e h := h.enqueue e
  note _ hline h := h.note hline
  services _ _ h := h.frame rfl rfl
  mark _ _ h := h.frame rfl rfl
  reload now _ h := reload_keeps now (fun _ _ h => h.frame rfl rfl) (h.load _ now)

variable (m : Machine) (aliases : AliasRegistry)

theorem handle (h : before.Untold w) (e : Event) (now : Moment) :
    before.Untold (m.handle aliases w e now).world :=
  (deeds before).handle (fun _ h => h.frame rfl rfl) (Action.allLoadOnly_true m.rule.actions)
    aliases e now h

theorem handleTick (h : before.Untold w) (now : Moment) : before.Untold (m.handleTick aliases w now).world :=
  (deeds before).handleTick (fun _ h => h.frame rfl rfl)
    (Action.allLoadOnly_true m.rule.actions) aliases now h

theorem processOne (h : before.Untold w) (e : Event) : before.Untold (w.processOne e).1 :=
  passAll_keeps (fun _ hv _ _ => (hv.handle _ _ e _).frame rfl rfl) h (Nat.le_refl _) fun _ => List.drop_zero

theorem tickAll (h : before.Untold w) (now : Option Moment) :
    before.Untold (World.tickAll (w.tickRound now) 0 w.engine.book.machines w {}).1 :=
  tickAll_keeps (fun _ hv _ _ => (hv.handleTick _ _ _).frame rfl rfl) h (Nat.le_refl _) fun _ => List.drop_zero

theorem drain (h : before.Untold w) (fuel : Nat) (report : Report) : before.Untold (World.drain fuel w report).1 := by
  induction fuel generalizing w report with
  | zero => exact h
  | succ fuel ih =>
    cases hpending : w.engine.pending with
    | nil => rwa [drain_of_empty fuel report hpending]
    | cons e rest =>
      have hstart : before.Untold { w with engine := { w.engine with pending := rest } } := h.frame rfl rfl
      have hone := hstart.processOne e
      rw [drain_of_cons fuel report hpending]
      split
      · exact ih hone _
      · exact hone

end Untold
end Domotics.World
