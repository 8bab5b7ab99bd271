import Domotics.World

/-!
Looking at a loaded rule from outside: the state it is in, its timers, what its schedule says at
present, how often it fired, and the values it has seen.
-/

namespace Domotics

structure Inspection where
  phase : RuleState
  lastFired : Option Moment
  nextTick : Option Moment
  window : Window
  fired : Nat
  seen : List (Reference × Value)
deriving Inhabited

namespace StateTable

/-- The entries in the order of the texts of their references. -/
def sorted (t : StateTable) : List (Reference × Value) :=
  t.entries.mergeSort fun a b => decide (a.1.text ≤ b.1.text)

end StateTable

namespace World

def inspect (w : World) (name : Document) : Result (Option Inspection) :=
  if !name.isScalar then Result.misuse (.unhashable name)
  else match w.engine.machine? name with
    | none => .ok none
    | some m => do
      let window ← m.rule.schedule.classify w.platform.now w.platform.solar
      return some {
        phase := m.phase
        lastFired := m.retrigger.lastFired
        nextTick := m.retrigger.nextTick
        window
        fired := w.engine.firedCount name
        seen := m.cache.sorted }

theorem inspect_of_machine?_eq_none {w : World} {name : Document} (hname : name.isScalar = true)
    (h : w.engine.machine? name = none) : w.inspect name = .ok none := by
  simp [inspect, hname, h]

end World
end Domotics
