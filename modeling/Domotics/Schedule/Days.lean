import Domotics.Fault

/-!
Sets of weekdays: single days by number or name, ranges of days that may wrap around the week, and
the usual groups.
-/

namespace Domotics

def Weekday.before (d : Weekday) : Weekday := d - 1

structure DaySet where
  mem : Weekday → Bool

namespace DaySet

def week : List Weekday := [0, 1, 2, 3, 4, 5, 6]

def empty : DaySet := ⟨fun _ => false⟩

def full : DaySet := ⟨fun _ => true⟩

def single (d : Weekday) : DaySet := ⟨(· == d)⟩

def union (a b : DaySet) : DaySet := ⟨fun d => a.mem d || b.mem d⟩

def next (a : DaySet) : DaySet := ⟨fun d => a.mem d.before⟩

/-- The weekdays from `first` to `last`, around the end of the week if need be. -/
def span (first last : Weekday) : DaySet := ⟨fun d => (d - first).val ≤ (last - first).val⟩

def toList (a : DaySet) : List Weekday := week.filter a.mem

def isEmpty (a : DaySet) : Bool := a.toList.isEmpty

instance : Inhabited DaySet := ⟨empty⟩

def names : List (String × Weekday) :=
  [("monday", 0), ("tuesday", 1), ("wednesday", 2), ("thursday", 3), ("friday", 4),
    ("saturday", 5), ("sunday", 6), ("mon", 0), ("tue", 1), ("wed", 2), ("thu", 3), ("fri", 4),
    ("sat", 5), ("sun", 6)]

def groups : List (String × DaySet) :=
  [("weekdays", span 0 4), ("weekend", span 5 6), ("daily", full), ("all", full)]

def dayOfName (name : String) : Result Weekday :=
  match names.find? (·.1 == Text.lower (Text.trim name)) with
  | some (_, d) => .ok d
  | none => Result.schedule (.dayName name)

def ofText (s : String) : Result DaySet :=
  match groups.find? (·.1 == s) with
  | some (_, days) => .ok days
  | none =>
    let range := match Text.cutChars ['.', '.'] s.toList with
      | some parts => some parts
      | none => Text.cutChars ['-'] s.toList
    match range with
    | some (first, last) => do
      let first ← dayOfName (String.ofList first)
      let last ← dayOfName (String.ofList last)
      return span first last
    | none => do
      let d ← dayOfName s
      return single d

mutual

/-- Reads a set of weekdays: a number, a text, or a list of sets. -/
def parse : Document → Result DaySet
  | .list items => parseAll items
  | .number (.int n) =>
    if h : 0 ≤ n ∧ n ≤ 6 then .ok (single ⟨n.toNat, by omega⟩) else Result.schedule (.dayNumber n)
  | d => ofText (Text.lower (Text.trim d.asText))

def parseAll : List Document → Result DaySet
  | [] => .ok empty
  | d :: rest => do
    let first ← parse d
    let others ← parseAll rest
    return first.union others

end

@[simp] theorem mem_single (d e : Weekday) : (single d).mem e = (e == d) := rfl

@[simp] theorem mem_union (a b : DaySet) (d : Weekday) :
    (a.union b).mem d = (a.mem d || b.mem d) := rfl

@[simp] theorem mem_next (a : DaySet) (d : Weekday) : a.next.mem d = a.mem d.before := rfl

theorem mem_week (d : Weekday) : d ∈ week := by revert d; decide

@[simp] theorem mem_toList (a : DaySet) (d : Weekday) : d ∈ a.toList ↔ a.mem d = true := by
  simp [toList, mem_week]

theorem isEmpty_eq_true_iff (a : DaySet) : a.isEmpty = true ↔ ∀ d, a.mem d = false := by
  simp [isEmpty, List.isEmpty_iff, List.eq_nil_iff_forall_not_mem]

end DaySet
end Domotics
