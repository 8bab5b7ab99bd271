import Domotics.Character.Span

/-!
Blank characters: what surrounds a value and may be trimmed.
-/

namespace Domotics.Character

/-- White space, the line and paragraph separators and the information separators. -/
def blankSpans : Array (Nat × Nat) := #[
  (9, 13), (28, 32), (133, 133), (160, 160), (5760, 5760), (8192, 8202), (8232, 8233),
  (8239, 8239), (8287, 8287), (12288, 12288)]

def isBlank (c : Char) : Bool := inSpans blankSpans c.toNat

end Domotics.Character
