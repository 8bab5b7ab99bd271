import Domotics.Document

/-!
The kinds of values. Every value has a kind, kinds are themselves values of a kind, and every kind but
the most general one is a special case of another.
-/

namespace Domotics

/-- The kinds of documents, of groups of kinds, of kinds, and the most general kind. -/
inductive Kind where
  | null | bool | int | real | text | list | object | group | kinds | any
deriving DecidableEq, Inhabited, Repr

namespace Kind

def name : Kind → String
  | null => "NoneType"
  | bool => "bool"
  | int => "int"
  | real => "float"
  | text => "str"
  | list => "list"
  | object => "dict"
  | group => "tuple"
  | kinds => "type"
  | any => "object"

/-- The kind that a kind is a special case of. Truth values count as integers. -/
def parent? : Kind → Option Kind
  | any => none
  | bool => some int
  | _ => some any

def line : Kind → List Kind
  | any => [any]
  | bool => [bool, int, any]
  | k => [k, any]

def literal (k : Kind) : String := s!"<class '{k.name}'>"

theorem line_eq (k : Kind) : k.line = k :: (k.parent?.map line).getD [] := by
  cases k <;> rfl

end Kind

def Document.kind : Document → Kind
  | null => .null
  | bool _ => .bool
  | number (.int _) => .int
  | number (.real _) => .real
  | text _ => .text
  | list _ => .list
  | object _ => .object

end Domotics
