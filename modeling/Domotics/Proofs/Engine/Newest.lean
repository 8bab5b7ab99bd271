import Domotics.Proofs.Engine.Record

/-!
The newest fires. The history keeps the last fires in the order in which they were recorded, and hands the records of a
rule, or of all rules, out from the newest on, up to a limit. The limit is looked at after a record has been taken, so
it is kept whenever it is positive, and a limit of zero still gives one record if there is any.
-/

namespace Domotics

/-- The name that records are asked for by. What does not count as set asks for the records of all rules. -/
def Document.asked (name : Document) : Option Document := if name.isSet then some name else none

theorem Rule.asked_name {r r' : Rule} (h : r.check = .ok r') : r.name.asked = some r.name := by
  have hset : r.name.isSet = true := by
    by_contra hnot
    rw [check, checked, dif_neg hnot] at h
    cases h
  rw [Document.asked, if_pos hset]

namespace Engine

/-- The records of the history that are of a name, or all of them, newest first. -/
def retained (e : Engine) : Option Document → List FiringRecord
  | none => e.history.reverse
  | some name => e.history.reverse.filter (·.rule.equals name)

theorem length_lastOf_le {α : Type} (n : Nat) (xs : List α) : (lastOf n xs).length ≤ n := by
  rw [lastOf, List.length_drop]
  omega

theorem history_foldl_recordFire {e : Engine} (h : e.history.length ≤ historySize) (fires : List FiringRecord) :
    (fires.foldl recordFire e).history = lastOf historySize (e.history ++ fires) := by
  induction fires generalizing e with
  | nil => rw [List.append_nil, lastOf_of_length_le h, List.foldl_nil]
  | cons r rest ih =>
    have hstep : (e.recordFire r).history = lastOf historySize (e.history ++ [r]) := rfl
    rw [List.foldl_cons, ih (hstep ▸ length_lastOf_le ..), hstep, lastOf_append_lastOf, List.append_assoc,
      List.singleton_append]

/-- With some records taken already, those are taken that the limit leaves room for, and at least one. -/
theorem upTo_eq_take (limit taken : Nat) (records : List FiringRecord) :
    upTo limit taken records = records.take (max 1 (limit - taken)) := by
  induction records generalizing taken with
  | nil => rw [upTo, List.take_nil]
  | cons r rest ih =>
    rw [upTo]
    by_cases hfull : limit ≤ taken + 1
    · have hone : max 1 (limit - taken) = 1 := by omega
      rw [if_pos (by omega), hone, List.take_succ_cons, List.take_zero]
    · have hroom : max 1 (limit - taken) = max 1 (limit - (taken + 1)) + 1 := by omega
      rw [if_neg (by omega), ih, hroom, List.take_succ_cons]

theorem recordsOf_eq_take (e : Engine) (name : Document) (limit : Nat) :
    e.recordsOf name limit = (e.retained name.asked).take (max 1 limit) := by
  have hmatching : (e.history.reverse.filter fun r => !name.isSet || r.rule.equals name) = e.retained name.asked := by
    rw [Document.asked]
    cases name.isSet <;> simp [retained]
  rw [recordsOf, hmatching, upTo_eq_take, Nat.sub_zero]

/-- A positive limit is never exceeded, and one of zero is if there is anything. -/
theorem take_eq_take_iff {α : Type} (limit : Nat) (xs : List α) :
    xs.take (max 1 limit) = xs.take limit ↔ 0 < limit ∨ xs = [] := by
  cases limit with
  | zero => cases xs <;> simp
  | succ n => simp

/-- Asked for the records of a rule, or of all rules, the engine answers with those that the history retains, newest
first, up to the limit; only that a limit of zero is taken for one. What the history retains are the last fires since it
was forgotten, and a rule with an acceptable name is asked for by this name. -/
theorem newest_records (e : Engine) :
    (∀ fires : List FiringRecord, (fires.foldl recordFire e.resetHistory).history = lastOf historySize fires) ∧
    (∀ r r' : Rule, r.check = .ok r' → r.name.asked = some r.name) ∧
    ∀ (name : Document) (limit : Nat), let matching := e.retained name.asked
      e.recordsOf name limit = matching.take (max 1 limit) ∧
      (e.recordsOf name limit = matching.take limit ↔ 0 < limit ∨ matching = []) ∧
      ((e.recordsOf name limit).length ≤ limit ↔ 0 < limit ∨ matching = []) := by
  refine ⟨fun fires => history_foldl_recordFire (Nat.zero_le _) fires, fun r r' => Rule.asked_name,
    fun name limit => ?_⟩
  intro matching
  have hanswer : e.recordsOf name limit = matching.take (max 1 limit) := e.recordsOf_eq_take name limit
  rw [hanswer]
  refine ⟨rfl, take_eq_take_iff limit matching, ?_⟩
  cases limit with
  | zero => cases matching <;> simp
  | succ n => simp

def bellRecord : FiringRecord := ⟨.text "bell", ⟨0, none⟩, .command, none, 0, []⟩

/-- Asked for no records at all, an engine that has one hands it out. -/
theorem one_record_beyond_limit :
    let e := ({} : Engine).recordFire bellRecord
    e.recordsOf (.text "bell") 0 = [bellRecord] ∧
      e.recordsOf (.text "bell") 0 ≠ (e.retained (some (.text "bell"))).take 0 ∧
      ¬ (e.recordsOf (.text "bell") 0).length ≤ 0 := by
  intro e
  have hanswer : e.recordsOf (.text "bell") 0 = [bellRecord] := by rfl
  rw [hanswer]
  exact ⟨rfl, nofun, by decide⟩

end Engine
end Domotics
