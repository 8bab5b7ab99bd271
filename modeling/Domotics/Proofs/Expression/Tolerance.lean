import Domotics.Proofs.Run.Faults

/-!
Strict and tolerant evaluation. A strict evaluation ends at its first fault, a tolerant one goes on after a
target that does not resolve or does not accept the value. Up to that first fault both go the same way, so
that either both come to the same end and nothing is absorbed, or the fault of the strict evaluation is the
first that the tolerant one absorbs.
-/

namespace Domotics

open Result

theorem Fault.isDomain_of_isAbsorbable {f : Fault} (h : f.isAbsorbable = true) : f.isDomain = true := by
  cases f with
  | unresolved => rfl
  | typeMismatch => rfl
  | _ => simp [isAbsorbable] at h

theorem Fault.not_isAbsorbable {f : Fault} (h : f.isDomain = false) : f.isAbsorbable = false := by
  cases hf : f.isAbsorbable with
  | false => rfl
  | true => simp [isDomain_of_isAbsorbable hf] at h

namespace Verdict

/-- A strict verdict and the tolerant one beside it: they agree, or the strict evaluation ended with a fault
that the tolerant one has absorbed before all others, or both broke with the same fault of another kind. -/
inductive Tolerates : Verdict → Verdict → Prop where
  | agreed (b : Bool) : Tolerates { result := .ok b } { result := .ok b }
  | absorbed {f : Fault} {result : Result Bool} {later : List Fault} (hf : f.isAbsorbable = true)
      (hresult : NoDomainFault result) :
      Tolerates { result := .error f } { result, absorbed := f :: later }
  | broke {f : Fault} (hf : f.isDomain = false) :
      Tolerates { result := .error f } { result := .error f }

variable {strict tolerant strict' tolerant' : Verdict}

theorem tolerates_self {result : Result Bool} (h : NoDomainFault result) :
    Tolerates { result } { result } := by
  cases result with
  | ok b => exact .agreed b
  | error f => exact .broke (h.foreign f rfl)

namespace Tolerates

theorem noDomainFault (h : Tolerates strict tolerant) : NoDomainFault tolerant.result := by
  cases h with
  | agreed b => exact noDomainFault_ok b
  | absorbed _ hresult => exact hresult
  | broke hf =>
    refine ⟨fun fault heq => ?_⟩
    cases heq
    exact hf

/-- The next of several expressions is evaluated, unless the evaluation has ended. After an absorbed fault
only the tolerant evaluation can go on, and it adds to what it has absorbed. -/
theorem orElse (h : Tolerates strict tolerant) (h' : Tolerates strict' tolerant') (decisive : Bool) :
    Tolerates (strict.orElse decisive strict') (tolerant.orElse decisive tolerant') := by
  cases h with
  | agreed b =>
    by_cases hb : b = decisive
    · simpa [Verdict.orElse, hb] using Tolerates.agreed decisive
    · simpa [Verdict.orElse, hb] using h'
  | @absorbed f result later hf hresult =>
    cases result with
    | error fault => exact .absorbed hf hresult
    | ok b =>
      by_cases hb : b = decisive
      · simpa [Verdict.orElse, hb] using Tolerates.absorbed hf (noDomainFault_ok decisive)
      · simpa [Verdict.orElse, hb] using Tolerates.absorbed hf h'.noDomainFault
  | broke hf => exact .broke hf

theorem opposite (h : Tolerates strict tolerant) : Tolerates strict.opposite tolerant.opposite := by
  cases h with
  | agreed b => exact .agreed !b
  | absorbed hf hresult => exact .absorbed hf (hresult.map _)
  | broke hf => exact .broke hf

end Tolerates
end Verdict

open Verdict

namespace Resolution

theorem noDomainFault_ofTarget (aliases : AliasRegistry) (c : Catalog) (spec : Document)
    (type : Option ValueType) : NoDomainFault (ofTarget aliases c spec type) := by
  have hmisuse (p : Prop) [Decidable p] (one other : MisuseFault) :
      NoDomainFault (if p then misuse one else misuse other : Result Resolution) :=
    .ite (noDomainFault_misuse one) (noDomainFault_misuse other)
  unfold ofTarget
  split
  · rename_i s
    unfold ofText byAlias
    split
    · split
      · split
        · exact noDomainFault_ok _
        · exact noDomainFault_ok _
      · exact .ite (noDomainFault_ok _) (noDomainFault_misuse _)
    · exact noDomainFault_ok _
  · exact hmisuse ..

end Resolution

namespace Predicate

variable (p : Predicate) (s : Situation)

/-- The faults of a target that can be looked up: it does not resolve, or its device does not accept the type. -/
theorem isAbsorbable_of_locate {p : Predicate} {s : Situation} {f : Fault} {r : Resolution}
    (hr : Resolution.ofTarget s.aliases s.catalog p.target p.type = .ok r) (h : p.locate s = .error f) :
    f.isAbsorbable = true := by
  rw [locate, Resolution.strict] at h
  cases hreference : r.reference with
  | none =>
    simp only [hr, hreference, bind, Except.bind] at h
    cases h
    rfl
  | some d =>
    simp only [hr, hreference, bind, Except.bind, pure, Except.pure] at h
    cases haccepted : s.catalog.accepted? d.ref with
    | none =>
      simp only [haccepted] at h
      cases h
      rfl
    | some accepted =>
      cases htype : p.type with
      | none => simp [haccepted, htype] at h
      | some t =>
        simp only [haccepted, htype] at h
        split at h
        · cases h
        · cases h
          rfl

theorem isAbsorbable_or_of_locate {p : Predicate} {s : Situation} {f : Fault}
    (h : p.locate s = .error f) : f.isAbsorbable = true ∨ f.isDomain = false := by
  cases hresolved : Resolution.ofTarget s.aliases s.catalog p.target p.type with
  | error fault =>
    simp only [locate, Resolution.strict, hresolved, bind, Except.bind] at h
    cases h
    exact .inr ((Resolution.noDomainFault_ofTarget ..).foreign _ hresolved)
  | ok r => exact .inl (isAbsorbable_of_locate hresolved h)

theorem tolerates_evaluate : Tolerates (p.evaluate { s with tolerant := false })
    (p.evaluate { s with tolerant := true }) := by
  have hlocate (b : Bool) : p.locate { s with tolerant := b } = p.locate s := rfl
  have hholds (b : Bool) (r : Reference) : p.holds { s with tolerant := b } r = p.holds s r := rfl
  rw [evaluate, evaluate, hlocate false, hlocate true]
  cases h : p.locate s with
  | ok r =>
    simp only [hholds]
    exact .agreed (p.holds s r)
  | error f =>
    rcases isAbsorbable_or_of_locate h with hf | hf
    · have habsorbed : Tolerates { result := .error f } { result := .ok false, absorbed := [f] } :=
        .absorbed hf (noDomainFault_ok false)
      simpa [hf] using habsorbed
    · simpa [Fault.not_isAbsorbable hf] using Tolerates.broke hf

end Predicate

theorem noDomainFault_withinTimeOfDay (t : Moment) (after before : Option Bound) (solar : SolarCalendar) :
    NoDomainFault (withinTimeOfDay t after before solar) := by
  -- a bound that resolves leaves the comparison with a moment, never with no bound
  have hbound (b : Bound) (isEnd : Bool) {rest : Option Moment → Result Bool}
      (h : ∀ u, NoDomainFault (rest (some u))) :
      NoDomainFault (some <$> b.resolve t.day t.offset solar isEnd >>= rest) := by
    rw [bind_map_left]
    exact .bind (b.noDomainFault_resolve solar t.day t.offset isEnd) h
  have horder (u v : Moment) (f : Ordering → Bool) :
      NoDomainFault (do return f (← u.order v) : Result Bool) :=
    .bind (u.noDomainFault_order v) fun o => noDomainFault_ok (f o)
  unfold withinTimeOfDay
  cases after with
  | none =>
    cases before with
    | none => exact noDomainFault_ok true
    | some b => exact hbound b true fun f => horder ..
  | some a =>
    refine hbound a false fun s => ?_
    cases before with
    | none => exact horder ..
    | some b =>
      refine hbound b true fun f => .bind (s.noDomainFault_order f) fun _ => .ite ?_ ?_
      · exact .bind (t.noDomainFault_order s) fun _ => .ite (horder ..) (noDomainFault_ok true)
      · exact .bind (s.noDomainFault_order t) fun _ => .ite (noDomainFault_ok false) (horder ..)

namespace Expression

variable (s : Situation)

mutual

/-- Both evaluations of an expression, by recursion on it. -/
theorem tolerates_evaluate (e : Expression) : Tolerates (evaluate { s with tolerant := false } e)
    (evaluate { s with tolerant := true } e) := by
  cases e with
  | all children => exact tolerates_evaluateAll children
  | any children => exact tolerates_evaluateAny children
  | negation child => exact (tolerates_evaluate child).opposite
  | time after before => exact tolerates_self (noDomainFault_withinTimeOfDay s.now after before s.solar)
  | device p => exact p.tolerates_evaluate s
  | foreign text => exact .agreed false

theorem tolerates_evaluateAll (es : List Expression) :
    Tolerates (evaluateAll { s with tolerant := false } es)
      (evaluateAll { s with tolerant := true } es) := by
  cases es with
  | nil => exact .agreed true
  | cons e rest => exact (tolerates_evaluate e).orElse (tolerates_evaluateAll rest) false

theorem tolerates_evaluateAny (es : List Expression) :
    Tolerates (evaluateAny { s with tolerant := false } es)
      (evaluateAny { s with tolerant := true } es) := by
  cases es with
  | nil => exact .agreed false
  | cons e rest => exact (tolerates_evaluate e).orElse (tolerates_evaluateAny rest) true

end

/-- Strict and tolerant evaluation of some clauses agree up to the first fault. If the strict one returns a
value, the tolerant one returns the same and absorbs nothing; a fault of a target with which the strict one
ends is the first that the tolerant one absorbs; any other fault is none of the vocabulary of rules, and the
tolerant one ends with it too and has absorbed nothing. A tolerant evaluation never ends with a fault of a
target. -/
theorem tolerant_agrees_to_first_fault (clauses : List Expression) :
    let strict := evaluateAny { s with tolerant := false } clauses
    let tolerant := evaluateAny { s with tolerant := true } clauses
    strict.absorbed = [] ∧
      (∀ b, strict.result = .ok b → tolerant = { result := .ok b }) ∧
      (∀ f, strict.result = .error f → f.isAbsorbable = true → tolerant.absorbed.head? = some f) ∧
      (∀ f, strict.result = .error f → f.isAbsorbable = false →
        f.isDomain = false ∧ tolerant = { result := .error f }) ∧
      ∀ f, tolerant.result = .error f → f.isAbsorbable = false := by
  intro strict tolerant
  have h : Tolerates strict tolerant := tolerates_evaluateAny s clauses
  have hends (f : Fault) (hf : tolerant.result = .error f) : f.isAbsorbable = false :=
    Fault.not_isAbsorbable (h.noDomainFault.foreign f hf)
  generalize strict = v, tolerant = u at h hends
  cases h with
  | agreed b =>
    refine ⟨rfl, fun c hc => ?_, fun g hg _ => ?_, fun g hg _ => ?_, hends⟩
    · cases hc
      rfl
    · cases hg
    · cases hg
  | @absorbed f result later hf hresult =>
    refine ⟨rfl, nofun, fun g hg _ => ?_, fun g hg hg' => ?_, hends⟩
    · cases hg
      rfl
    · cases hg
      simp [hf] at hg'
  | @broke f hf =>
    refine ⟨rfl, nofun, fun g hg hg' => ?_, fun g hg _ => ?_, hends⟩
    · cases hg
      simp [Fault.not_isAbsorbable hf] at hg'
    · cases hg
      exact ⟨hf, rfl⟩

def unfurnished : Situation where
  aliases := {}
  catalog := { items := [{ name := "lamp", accepts := [.onOff] }] }
  states := ({} : StateTable).set ⟨.item, "lamp"⟩ (.onOff .on)
  solar := {}
  event := .tick ⟨0, none⟩
  cache := {}
  old := .absent
  now := ⟨0, none⟩
  tolerant := false

def guarded : List Expression :=
  let stands (name : String) (v : Value) (type : ValueType) : Expression :=
    .device { target := .text name, kind := .is, value := v, type := some type }
  [.all [.negation (stands "door" (.openClosed .opened) .openClosed),
      stands "window" (.openClosed .opened) .openClosed],
    stands "lamp" (.onOff .on) .onOff]

theorem tolerant_agrees_to_first_fault_guarded :
    let door : Fault := .unresolved (.text "door") .notFound
    (evaluateAny { unfurnished with tolerant := false } guarded).result = .error door ∧
      door.isAbsorbable = true ∧
      (evaluateAny { unfurnished with tolerant := true } guarded).result = .ok true ∧
      (evaluateAny { unfurnished with tolerant := true } guarded).absorbed.head? = some door := by
  intro door
  have hstrict : (evaluateAny { unfurnished with tolerant := false } guarded).result = .error door := by
    rfl
  exact ⟨hstrict, rfl, rfl, (tolerant_agrees_to_first_fault unfurnished guarded).2.2.1 door hstrict rfl⟩

end Expression
end Domotics
