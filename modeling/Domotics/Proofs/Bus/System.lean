import Domotics.Bus

/-!
The steps of a bus in any system around it: what a delivery does at one subscriber, what a drain does
at one event, and what a publication does at rest and during a delivery.
-/

namespace Domotics.BusSystem

variable {σ η : Type} (sys : BusSystem σ η) {e : Event} {f : EventFilter} {h : η}
  {rest : List (EventFilter × η)} {s : σ}

theorem deliver_of_not_accepts (hf : ¬ f.accepts e = true) :
    sys.deliver e ((f, h) :: rest) s = sys.deliver e rest s := by
  rw [deliver, if_neg hf]

theorem deliver_of_escaped (hf : f.accepts e = true) (hh : (sys.handle h e s).2 = .escaped) :
    sys.deliver e ((f, h) :: rest) s = ((sys.handle h e s).1, true) := by
  rw [deliver, if_pos hf]
  split <;> simp_all

theorem deliver_of_not_escaped (hf : f.accepts e = true) (hh : (sys.handle h e s).2 ≠ .escaped) :
    sys.deliver e ((f, h) :: rest) s = sys.deliver e rest (sys.handle h e s).1 := by
  rw [deliver, if_pos hf]
  split <;> simp_all

theorem drain_of_empty (n : Nat) (hqueue : (sys.bus s).queue = []) :
    sys.drain (n + 1) s = (sys.setDispatching false s, .settled) := by
  rw [drain, hqueue]

def turn (e : Event) (rest : List Event) (s : σ) : σ :=
  sys.note e (sys.setBus { sys.bus s with queue := rest } s)

theorem drain_of_cons (n : Nat) {later : List Event} (hqueue : (sys.bus s).queue = e :: later) :
    let start := sys.turn e later s
    let out := sys.deliver e (sys.bus start).subscriptions start
    sys.drain (n + 1) s =
      if out.2 then (sys.setDispatching false out.1, .escaped) else sys.drain n out.1 := by
  intro start out
  rw [drain, hqueue]
  simp only
  split
  · next t hout => rw [show out = (t, true) from hout]; rfl
  · next t hout => rw [show out = (t, false) from hout]; rfl

end Domotics.BusSystem
