import Domotics.Proofs.Expression.Predicate
import Domotics.Proofs.Transition.Judge
import Domotics.Proofs.Transition.Steady

/-!
What a rule makes of a device that has been updated. The value that an update brings is the one that the
rule looks at until the next update of the device that it comes to. A predicate compares it with a value
that it has prepared by itself: it reads a truth value as a state of a switch, whereas the platform and the
rule keep the truth value as it came, and the two are not equal.
-/

namespace Domotics

namespace Predicate

variable {target : Document} {kind : PredicateKind} {v : Value} {p : Predicate}

theorem make_eq (hkind : kind = .is ∨ kind = .goes) : make target kind v .absent none =
    if !target.isSet then Result.invalid .emptyTarget
    else if !v.prepared.isPresent then Result.invalid (.needsValue kind.name target)
    else v.typeOf.map fun type => ⟨target, kind, v.prepared, .absent, type⟩ := by
  have horigin : Value.absent.prepared = .absent := rfl
  rw [make_eq_typeFor, horigin, typeFor_absent, Value.typeOf_prepared]
  rcases hkind with rfl | rfl
  · rfl
  · rfl

theorem eq_of_make (hkind : kind = .is ∨ kind = .goes)
    (h : make target kind v .absent none = .ok p) :
    p.target = target ∧ p.kind = kind ∧ p.value = v.prepared ∧ v.typeOf = .ok p.type := by
  rw [make_eq hkind] at h
  split_ifs at h
  cases htype : v.typeOf with
  | error fault => simp [htype, Except.map] at h
  | ok type =>
    simp only [htype, Except.map] at h
    cases h
    exact ⟨rfl, rfl, rfl, rfl⟩

theorem StandsFor.congr {p q : Predicate} {aliases : AliasRegistry} {c : Catalog} {d : Reference}
    (h : p.StandsFor aliases c d) (htarget : q.target = p.target) (htype : q.type = p.type) :
    q.StandsFor aliases c d where
  resolves := by rw [htarget, htype]; exact h.resolves
  accepts := by rw [htype]; exact h.accepts

theorem evaluate_of_standsFor {s : Situation} {d : Reference} (h : p.StandsFor s.aliases s.catalog d) :
    p.evaluate s = { result := .ok (p.holds s d) } := by
  rw [evaluate, locate_eq_ok h]

end Predicate

namespace Machine

variable (m : Machine) {d : Reference} {v : Value}

def outlook (aliases : AliasRegistry) (w : World) (e : Event) (now : Moment) : Situation :=
  (m.noting e).situation (w.surroundings aliases) e (m.cache.valueBefore e) now

/-- The value of a device as a rule knows it before an update by a platform: the state of the device, or
the last value that the rule has seen if the platform knows none. -/
def known (p : Platform) (d : Reference) : Value :=
  if (p.stateOf d).isPresent then p.stateOf d else (m.cache.get? d).getD .absent

inductive Visit where
  | event (aliases : AliasRegistry) (w : World) (e : Event) (now : Moment)
  | tick (aliases : AliasRegistry) (w : World) (now : Moment)

def Visit.updates (d : Reference) : Visit → Bool
  | event _ _ e _ => e.updates d
  | tick .. => false

/-- The rule after a visit, however the pass over it ends. -/
def visit (m : Machine) : Visit → Machine
  | .event aliases w e now => (m.handle aliases w e now).machine
  | .tick aliases w now => (m.handleTick aliases w now).machine

section

variable (aliases : AliasRegistry) (w : World) (e : Event) (now : Moment)

theorem cache_handle : (m.handle aliases w e now).machine.cache = m.cache.record e := by
  have hhandled := m.handled_handle aliases w e now
  generalize m.handle aliases w e now = pass at hhandled ⊢
  cases hhandled with
  | broke => rfl
  | rested => rfl
  | fired => rfl
  | unplanned => rfl

theorem cache_handleTick : (m.handleTick aliases w now).machine.cache = m.cache := by
  have hpass := m.cache_handle aliases w (.tick now) now
  rw [show m.cache.record (.tick now) = m.cache from rfl] at hpass
  rw [handleTick]
  split
  · rfl
  · rfl
  · dsimp only
    split
    · exact hpass
    · split_ifs
      · exact hpass
      · split <;> exact hpass

end

theorem get?_visit (x : Visit) (hx : x.updates d = false) :
    (m.visit x).cache.get? d = m.cache.get? d := by
  cases x with
  | event aliases w e now =>
    have hupdates : e.updates d = false := hx
    rw [visit, cache_handle, StateTable.get?_record, hupdates]
    rfl
  | tick aliases w now => rw [visit, cache_handleTick]

/-- What comes to a rule leaves the value that it has seen of a device, unless it updates the device. -/
theorem get?_visits (visits : List Visit) (hvisits : ∀ x ∈ visits, x.updates d = false) :
    (visits.foldl visit m).cache.get? d = m.cache.get? d := by
  induction visits generalizing m with
  | nil => rfl
  | cons x rest ih =>
    obtain ⟨hx, hrest⟩ := List.forall_mem_cons.mp hvisits
    rw [List.foldl_cons, ih _ hrest, m.get?_visit x hx]

theorem valueBefore_update (p : Platform) (source : String) :
    m.cache.valueBefore (p.update d v source).2 = m.known p d := rfl

theorem holds_is {is : Predicate} {aliases : AliasRegistry} {w : World} {e : Event} {now : Moment}
    (hkind : is.kind = .is) (h : (m.cache.record e).get? d = some v) :
    is.holds (m.outlook aliases w e now) d = v.equals is.value := by
  have hseen : (m.outlook aliases w e now).cache.get? d = some v := h
  rw [Predicate.holds, hkind]
  simp only [Predicate.currentValue, hseen]

theorem holds_goes {goes : Predicate} {aliases : AliasRegistry} {w : World} {now : Moment}
    (p : Platform) (source : String) (hkind : goes.kind = .goes) :
    goes.holds (m.outlook aliases w (p.update d v source).2 now) d =
      (v.equals goes.value && !(m.known p d).equals goes.value) := by
  have hupdates : (p.update d v source).2.updates d = true := by simp [Platform.updates_update]
  have hevent : (m.outlook aliases w (p.update d v source).2 now).event = (p.update d v source).2 := rfl
  have hold : (m.outlook aliases w (p.update d v source).2 now).old = m.known p d :=
    m.valueBefore_update p source
  rw [Predicate.holds_eq (.inl hkind), Predicate.isTransition, hkind, hevent, hold, hupdates,
    Bool.true_and]
  rfl

/-- After an update of a device to a value, `is` holds of this value in the pass over the update and in
every later one up to the next update of the device, and `goes` holds in the pass over the update if the
rule knew another value before, unless the value is a truth value: then neither holds. -/
theorem compares_with_update {target : Document} {is goes : Predicate} (hself : v.equals v = true)
    (his : Predicate.make target .is v .absent none = .ok is)
    (hgoes : Predicate.make target .goes v .absent none = .ok goes)
    {aliases : AliasRegistry} {w : World} (hstands : is.StandsFor aliases w.platform.catalog d)
    (p : Platform) (source : String) (now : Moment) :
    let e := (p.update d v source).2
    (is.evaluate (m.outlook aliases w e now)).result = .ok (!v.isTruth) ∧
      (goes.evaluate (m.outlook aliases w e now)).result =
        .ok (!v.isTruth && !(m.known p d).equals v) ∧
      ∀ visits : List Visit, (∀ x ∈ visits, x.updates d = false) →
        ∀ (aliases' : AliasRegistry) (w' : World) (e' : Event) (now' : Moment),
          e'.updates d = false → is.StandsFor aliases' w'.platform.catalog d →
            (is.evaluate ((visits.foldl visit (m.handle aliases w e now).machine).outlook
              aliases' w' e' now')).result = .ok (!v.isTruth) := by
  intro e
  obtain ⟨htarget, hkind, hvalue, htype⟩ := Predicate.eq_of_make (.inl rfl) his
  obtain ⟨htarget', hkind', hvalue', htype'⟩ := Predicate.eq_of_make (.inr rfl) hgoes
  have hupdates : e.updates d = true := by simp [e, Platform.updates_update]
  have hnoted : (m.cache.record e).get? d = some v := by
    rw [StateTable.get?_record, hupdates]
    rfl
  have hequals : v.equals is.value = !v.isTruth := by rw [hvalue, Value.equals_prepared hself]
  refine ⟨?_, ?_, fun visits hvisits aliases' w' e' now' he' hstands' => ?_⟩
  · rw [Predicate.evaluate_of_standsFor hstands, m.holds_is hkind hnoted, hequals]
  · have htypes : goes.type = is.type := Except.ok.inj (htype'.symm.trans htype)
    have hstandsGoes := hstands.congr (htarget'.trans htarget.symm) htypes
    rw [Predicate.evaluate_of_standsFor hstandsGoes, m.holds_goes p source hkind', hvalue',
      Value.equals_prepared hself]
    cases htruth : v.isTruth with
    | false => rw [Value.prepared_of_not_truth htruth]
    | true => rfl
  · have hkept : ((visits.foldl visit (m.handle aliases w e now).machine).cache.record e').get? d =
        some v := by
      rw [StateTable.get?_record, he', get?_visits _ _ hvisits, cache_handle]
      exact hnoted
    rw [Predicate.evaluate_of_standsFor hstands', holds_is _ hkind hkept, hequals]

def lampWorld : World :=
  { platform := { now := ⟨0, none⟩, catalog := { items := [{ name := "lamp", accepts := [.onOff] }] } } }

def watcher : Machine := { rule := { name := .text "watch" }, retrigger := { cooldown := .zero, specs := [] } }

def lampOn (kind : PredicateKind) : Predicate :=
  { target := .text "lamp", kind, value := .onOff .on, type := some .onOff }

theorem lampOn_standsFor (kind : PredicateKind) :
    (lampOn kind).StandsFor {} lampWorld.platform.catalog ⟨.item, "lamp"⟩ :=
  Predicate.standsFor_item { name := "lamp", accepts := [.onOff] } rfl rfl rfl (by simp [lampOn])

/-- The lamp is on in the pass over the update that switches it on, and after a tick and a command still. -/
theorem compares_with_update_switched :
    let lamp : Reference := ⟨.item, "lamp"⟩
    let e := (lampWorld.platform.update lamp (.onOff .on) "user").2
    let off : Event := { ref := some lamp, kind := .command, new := .onOff .off, time := ⟨0, none⟩ }
    let visits : List Visit := [.tick {} lampWorld ⟨0, none⟩, .event {} lampWorld off ⟨0, none⟩]
    Predicate.make (.text "lamp") .is (.onOff .on) .absent none = .ok (lampOn .is) ∧
    Predicate.make (.text "lamp") .goes (.onOff .on) .absent none = .ok (lampOn .goes) ∧
    (lampOn .is).StandsFor {} lampWorld.platform.catalog lamp ∧
    (∀ x ∈ visits, x.updates lamp = false) ∧
    ((lampOn .is).evaluate (watcher.outlook {} lampWorld e ⟨0, none⟩)).result = .ok true ∧
    ((lampOn .goes).evaluate (watcher.outlook {} lampWorld e ⟨0, none⟩)).result = .ok true ∧
    ((lampOn .is).evaluate ((visits.foldl visit (watcher.handle {} lampWorld e ⟨0, none⟩).machine).outlook
      {} lampWorld off ⟨0, none⟩)).result = .ok true := by
  intro lamp e off visits
  have hmakeIs : Predicate.make (.text "lamp") .is (.onOff .on) .absent none = .ok (lampOn .is) := rfl
  have hmakeGoes : Predicate.make (.text "lamp") .goes (.onOff .on) .absent none = .ok (lampOn .goes) := rfl
  have hstands := lampOn_standsFor .is
  have hvisits : ∀ x ∈ visits, x.updates lamp = false := by
    simp [visits, off, Visit.updates, Event.updates, Event.changesState]
  obtain ⟨his, hgoes, hlater⟩ := watcher.compares_with_update rfl hmakeIs hmakeGoes hstands
    lampWorld.platform "user" ⟨0, none⟩
  have hkept := hlater visits hvisits {} lampWorld off ⟨0, none⟩ rfl hstands
  exact ⟨hmakeIs, hmakeGoes, hstands, hvisits, his, hgoes, hkept⟩

/-- After an update with the truth value `true` the predicates of `true` do not hold, although the value is
equal to itself, is accepted on both sides and was not there before. -/
theorem truth_value_not_found :
    let lamp : Reference := ⟨.item, "lamp"⟩
    let v : Value := .plain (.bool true)
    let e := (lampWorld.platform.update lamp v "user").2
    v.equals v = true ∧
    Predicate.make (.text "lamp") .is v .absent none = .ok (lampOn .is) ∧
    Predicate.make (.text "lamp") .goes v .absent none = .ok (lampOn .goes) ∧
    (lampOn .is).StandsFor {} lampWorld.platform.catalog lamp ∧
    (lampWorld.platform.stateOf lamp).equals v = false ∧
    ((lampOn .is).evaluate (watcher.outlook {} lampWorld e ⟨0, none⟩)).result ≠ .ok true ∧
    ((lampOn .goes).evaluate (watcher.outlook {} lampWorld e ⟨0, none⟩)).result ≠ .ok true := by
  intro lamp v e
  have his : ((lampOn .is).evaluate (watcher.outlook {} lampWorld e ⟨0, none⟩)).result = .ok false := rfl
  have hgoes : ((lampOn .goes).evaluate (watcher.outlook {} lampWorld e ⟨0, none⟩)).result = .ok false := rfl
  refine ⟨rfl, rfl, rfl, lampOn_standsFor .is, rfl, ?_, ?_⟩
  · rw [his]
    simp
  · rw [hgoes]
    simp

end Machine
end Domotics
