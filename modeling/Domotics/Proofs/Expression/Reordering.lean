import Domotics.Proofs.Expression.Tolerance
import Mathlib.Data.List.Perm.Basic

/-!
The order of clauses. An evaluation stops at the first value that decides, so that expressions in another order visit
other leaves. As long as no leaf breaks, the value is nevertheless that of the tree without regard to any order: the
truth of its leaves, put together by conjunction, disjunction and negation.
-/

namespace Domotics

namespace Verdict

def holds (v : Verdict) : Bool := v.result.toOption.getD false

theorem result_eq_holds {v : Verdict} (h : ∃ b, v.result = .ok b) : v.result = .ok v.holds := by
  obtain ⟨b, hb⟩ := h
  rw [holds, hb]
  rfl

theorem result_orElse {first rest : Verdict} {b c : Bool} (hfirst : first.result = .ok b)
    (hrest : rest.result = .ok c) (decisive : Bool) :
    (first.orElse decisive rest).result = .ok (if b = decisive then decisive else c) := by
  rw [orElse, hfirst]
  by_cases hb : b = decisive <;> simp [hb, hfirst, hrest]

end Verdict

namespace Expression

/-! ### Truth -/

mutual

/-- The truth of an expression, for which all leaves are looked at. -/
def truth (s : Situation) : Expression → Bool
  | all children => truthAll s children
  | any children => truthAny s children
  | negation child => !truth s child
  | leaf => (evaluate s leaf).holds

def truthAll (s : Situation) : List Expression → Bool
  | [] => true
  | e :: rest => truth s e && truthAll s rest

def truthAny (s : Situation) : List Expression → Bool
  | [] => false
  | e :: rest => truth s e || truthAny s rest

end

mutual

def leaves : Expression → List Expression
  | all children => leavesOf children
  | any children => leavesOf children
  | negation child => leaves child
  | leaf => [leaf]

def leavesOf : List Expression → List Expression
  | [] => []
  | e :: rest => leaves e ++ leavesOf rest

end

variable {s : Situation}

def LeavesAnswer (s : Situation) (es : List Expression) : Prop :=
  ∀ leaf ∈ leavesOf es, ∃ b, (evaluate s leaf).result = .ok b

theorem LeavesAnswer.of_cons {e : Expression} {rest : List Expression} (h : LeavesAnswer s (e :: rest)) :
    LeavesAnswer s [e] ∧ LeavesAnswer s rest := by
  simp only [LeavesAnswer, leavesOf, List.forall_mem_append, List.append_nil] at h ⊢
  exact h

theorem leavesAnswer_of_tolerant {es : List Expression} (hs : s.tolerant = true)
    (h : ∀ leaf ∈ leavesOf es, ∀ f, (evaluate s leaf).result = .error f → f.isDomain = true) : LeavesAnswer s es := by
  intro leaf hleaf
  cases hresult : (evaluate s leaf).result with
  | ok b => exact ⟨b, rfl⟩
  | error f =>
    have htolerant : { s with tolerant := true } = s := by rw [← hs]
    have hforeign := (tolerates_evaluate s leaf).noDomainFault.foreign f
    rw [htolerant] at hforeign
    simp [h leaf hleaf f hresult] at hforeign
    exact absurd hresult hforeign

mutual

/-- The value of an expression is its truth, if every leaf says something. -/
theorem evaluate_eq_truth (e : Expression) (h : LeavesAnswer s [e]) : (evaluate s e).result = .ok (truth s e) := by
  simp only [LeavesAnswer, leavesOf, List.append_nil] at h
  cases e with
  | all children => exact evaluateAll_eq_truthAll children h
  | any children => exact evaluateAny_eq_truthAny children h
  | negation child =>
    have hchild := evaluate_eq_truth child (by simpa only [LeavesAnswer, leavesOf, leaves, List.append_nil] using h)
    simp [evaluate, truth, Verdict.opposite, hchild, Except.map]
  | time after before => exact Verdict.result_eq_holds (h _ (List.mem_singleton_self _))
  | device p => exact Verdict.result_eq_holds (h _ (List.mem_singleton_self _))
  | foreign text => exact Verdict.result_eq_holds (h _ (List.mem_singleton_self _))

theorem evaluateAll_eq_truthAll (es : List Expression) (h : LeavesAnswer s es) :
    (evaluateAll s es).result = .ok (truthAll s es) := by
  cases es with
  | nil => rfl
  | cons e rest =>
    have hfirst := evaluate_eq_truth e h.of_cons.1
    have hrest := evaluateAll_eq_truthAll rest h.of_cons.2
    rw [evaluateAll, Verdict.result_orElse hfirst hrest, truthAll]
    cases truth s e <;> rfl

theorem evaluateAny_eq_truthAny (es : List Expression) (h : LeavesAnswer s es) :
    (evaluateAny s es).result = .ok (truthAny s es) := by
  cases es with
  | nil => rfl
  | cons e rest =>
    have hfirst := evaluate_eq_truth e h.of_cons.1
    have hrest := evaluateAny_eq_truthAny rest h.of_cons.2
    rw [evaluateAny, Verdict.result_orElse hfirst hrest, truthAny]
    cases truth s e <;> rfl

end

/-! ### Reordering -/

/-- Lists of expressions that differ in their order, and in the order of the children of conjunctions and disjunctions
at any depth. -/
inductive Reordered : List Expression → List Expression → Prop where
  | refl (es : List Expression) : Reordered es es
  | swap (a b : Expression) (es : List Expression) : Reordered (a :: b :: es) (b :: a :: es)
  | cons {a b : Expression} {es fs : List Expression} (hfirst : Reordered [a] [b]) (hrest : Reordered es fs) :
      Reordered (a :: es) (b :: fs)
  | all {es fs : List Expression} (h : Reordered es fs) : Reordered [.all es] [.all fs]
  | any {es fs : List Expression} (h : Reordered es fs) : Reordered [.any es] [.any fs]
  | negation {a b : Expression} (h : Reordered [a] [b]) : Reordered [.negation a] [.negation b]
  | trans {es fs gs : List Expression} (h₁ : Reordered es fs) (h₂ : Reordered fs gs) : Reordered es gs

theorem reordered_of_perm {es fs : List Expression} (h : es.Perm fs) : Reordered es fs := by
  induction h with
  | nil => exact .refl []
  | cons a _ ih => exact .cons (.refl [a]) ih
  | swap a b es => exact .swap b a es
  | trans _ _ ih₁ ih₂ => exact .trans ih₁ ih₂

namespace Reordered

variable {es fs : List Expression} (h : Reordered es fs)

include h

theorem truth_eq (s : Situation) : truthAll s es = truthAll s fs ∧ truthAny s es = truthAny s fs := by
  induction h with
  | refl es => exact ⟨rfl, rfl⟩
  | swap a b es => exact ⟨by simp only [truthAll, Bool.and_left_comm], by simp only [truthAny, Bool.or_left_comm]⟩
  | @cons a b _ _ _ _ ihfirst ihrest =>
    have hfirst : truth s a = truth s b := by simpa only [truthAll, Bool.and_true] using ihfirst.1
    exact ⟨by rw [truthAll, truthAll, hfirst, ihrest.1], by rw [truthAny, truthAny, hfirst, ihrest.2]⟩
  | all _ ih => simp [truthAll, truthAny, truth, ih.1]
  | any _ ih => simp [truthAll, truthAny, truth, ih.2]
  | @negation a b _ ih =>
    have hchild : truth s a = truth s b := by simpa only [truthAll, Bool.and_true] using ih.1
    simp [truthAll, truthAny, truth, hchild]
  | trans _ _ ih₁ ih₂ => exact ⟨ih₁.1.trans ih₂.1, ih₁.2.trans ih₂.2⟩

theorem leavesOf_perm : (leavesOf es).Perm (leavesOf fs) := by
  induction h with
  | refl es => exact .refl _
  | swap a b es => simpa only [leavesOf, List.append_assoc] using List.perm_append_comm_assoc ..
  | cons _ _ ihfirst ihrest =>
    simp only [leavesOf, List.append_nil] at ihfirst
    exact ihfirst.append ihrest
  | all _ ih => simpa only [leavesOf, leaves, List.append_nil] using ih
  | any _ ih => simpa only [leavesOf, leaves, List.append_nil] using ih
  | negation _ ih => simpa only [leavesOf, leaves, List.append_nil] using ih
  | trans _ _ ih₁ ih₂ => exact ih₁.trans ih₂

theorem evaluateAny_eq {s : Situation} (hleaves : LeavesAnswer s es) :
    (evaluateAny s es).result = .ok (truthAny s es) ∧ (evaluateAny s fs).result = .ok (truthAny s es) := by
  refine ⟨evaluateAny_eq_truthAny es hleaves, ?_⟩
  rw [(h.truth_eq s).2]
  exact evaluateAny_eq_truthAny fs fun leaf hleaf => hleaves leaf (h.leavesOf_perm.mem_iff.mpr hleaf)

end Reordered
end Expression
end Domotics
