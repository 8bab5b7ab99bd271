import Domotics.Document.Kind
import Domotics.Document.Literal
import Domotics.Number.Presentation

/-!
What the fields of a template may refer to: a value, the parts that a value has by name or by
position, and the kinds of values.
-/

namespace Domotics

inductive Part where
  | value (d : Document)
  | kind (k : Kind)
  | kinds (ks : List Kind)
deriving Inhabited, Repr

namespace Part

def kindOf : Part → Kind
  | value d => d.kind
  | kind _ => .kinds
  | kinds _ => .group

def literal : Part → String
  | value d => d.literal
  | kind k => k.literal
  | kinds [k] => "(" ++ k.literal ++ ",)"
  | kinds ks => "(" ++ ", ".intercalate (ks.map Kind.literal) ++ ")"

def asText : Part → String
  | value d => d.asText
  | p => p.literal

abbrev text (s : String) : Part := value (.text s)

/-- The parts of a number by name: a whole number is a quotient over one, and every number is a point
on the real axis. -/
def ofNumber? (x : Number) : String → Option Number
  | "real" => some x
  | "imag" => match x with
    | .int _ => some (.int 0)
    | .real _ => some (.real .zero)
  | "numerator" => match x with
    | .int n => some (.int n)
    | .real _ => none
  | "denominator" => match x with
    | .int _ => some (.int 1)
    | .real _ => none
  | _ => none

def ofKind? (k : Kind) : String → Option Part
  | "__name__" | "__qualname__" => some (text k.name)
  | "__module__" => some (text "builtins")
  | "__base__" => some ((k.parent?.map kind).getD (value .null))
  | "__bases__" => some (kinds k.parent?.toList)
  | "__mro__" => some (kinds k.line)
  | _ => none

def named (p : Part) (name : String) : Result Part :=
  if name = "__class__" then .ok (kind p.kindOf)
  else
    let found := match p with
      | value d => (d.toNumber?.bind (ofNumber? · name)).map fun x => value (.number x)
      | kind k => ofKind? k name
      | kinds _ => none
    match found, p with
    | some part, _ => .ok part
    | none, kind k => Result.misuse (.kindHasNoAttribute k name)
    | none, p => Result.misuse (.noAttribute p.kindOf name)

/-- The part at a place, or under a key that writes no place. -/
def item (p : Part) (place : Option Nat) : Result Part :=
  match place, p with
  | _, kind k => Result.misuse (.kindNotIndexed k)
  | some n, value (.text s) =>
    match s.toList[n]? with
    | some c => .ok (text (String.singleton c))
    | none => Result.misuse (.noItem .text)
  | some n, kinds ks =>
    match ks[n]? with
    | some k => .ok (kind k)
    | none => Result.misuse (.noItem .group)
  | _, p => Result.misuse (.notIndexed p.kindOf)

/-- Lays out a part. Without a layout it is running text; only texts, numbers and truth values, which
are laid out as integers, take one. -/
def layOut (p : Part) (layout : List Char) : Result (List Char) :=
  if layout = [] then .ok p.asText.toList
  else match p with
    | value (.text s) => do (← Layout.read .text .left 's' layout).text s.toList
    | value (.number x) => x.present layout
    | value (.bool b) => Number.presentInt .bool layout (if b then 1 else 0)
    | p => Result.misuse (.notFormatted p.kindOf)

end Part
end Domotics
