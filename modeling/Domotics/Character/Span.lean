/-!
Ranges of characters, the form in which character properties are stored.
-/

namespace Domotics.Character

/-- A run of letters, every `stride`-th character from `first` to `last`, that all move by `shift`. -/
structure CaseRun where
  first : Nat
  last : Nat
  stride : Nat
  shift : Int

def CaseRun.covers (r : CaseRun) (code : Nat) : Bool :=
  r.first ≤ code && code ≤ r.last && (code - r.first) % r.stride == 0

def CaseRun.apply (r : CaseRun) (code : Nat) : Char := Char.ofNat ((code : Int) + r.shift).toNat

def inSpans (spans : Array (Nat × Nat)) (code : Nat) : Bool :=
  spans.any fun span => span.1 ≤ code && code ≤ span.2

end Domotics.Character
