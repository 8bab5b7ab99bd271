import Domotics.Expression
import Domotics.Value.Parser

/-!
Reading expressions. Each node is an object whose only key says what kind of node it is.
-/

namespace Domotics

/-- The value of a key that has to be there and is not null. -/
def requiredEntry (context key : String) (entries : List (String × Document)) : Result Document :=
  match (Document.entry? key entries).getD .null with
  | .null => Result.invalid (.missingKey context key (.object entries))
  | d => .ok d

def boundEntry (key : String) (entries : List (String × Document)) : Result (Option Bound) :=
  match (Document.entry? key entries).getD .null with
  | .null => .ok none
  | d => some <$> Bound.parse d

def typeEntry (entries : List (String × Document)) : Result (Option ValueType) :=
  let raw := (Document.entry? "value_type" entries).getD .null
  if !raw.isSet then .ok none
  else
    let found := match raw with
      | .text s => ValueType.ofName? s
      | _ => none
    match found with
    | some t => .ok (some t)
    | none => Result.invalid (.notMember raw "ValueType")

namespace Predicate

def parse (kind : PredicateKind) (body : Document) : Result Predicate :=
  match body with
  | .object entries => do
    let type ← typeEntry entries
    let target ← requiredEntry kind.name "target" entries
    if kind = .goesFrom then
      let value ← Value.parseDocument (← requiredEntry kind.name "to" entries) type
      let origin ← Value.parseDocument (← requiredEntry kind.name "from" entries) type
      make target kind value origin type
    else
      let value ← Value.parseDocument ((Document.entry? "value" entries).getD .null) type
      make target kind value .absent type
  | d => Result.invalid (.predicateShape kind.name d)

end Predicate

namespace Expression

def parseTime (body : Document) : Result Expression :=
  match body with
  | .object entries => do
    let after ← boundEntry "after" entries
    let before ← boundEntry "before" entries
    return .time after before
  | d => Result.invalid (.timeShape d)

mutual

def parse : Document → Result Expression
  | .object entries => parseNode (.object entries) entries
  | d => Result.invalid (.expressionShape d)

def parseNode (whole : Document) : List (String × Document) → Result Expression
  | [] => Result.invalid (.expressionShape whole)
  | e :: rest => if rest.isEmpty then parseEntry e else Result.invalid (.expressionShape whole)

def parseEntry : String × Document → Result Expression
  | (kind, body) =>
    if kind = "and" then all <$> parseChildren kind body
    else if kind = "or" then any <$> parseChildren kind body
    else if kind = "not" then negation <$> parse body
    else if kind = "time" then parseTime body
    else match PredicateKind.ofName? kind with
      | some kind => device <$> Predicate.parse kind body
      | none => Result.invalid (.unknownExpression kind)

def parseChildren (kind : String) : Document → Result (List Expression)
  | .list items => parseAll items
  | d => Result.invalid (.expressionList kind d)

def parseAll : List Document → Result (List Expression)
  | [] => .ok []
  | d :: rest => do
    let first ← parse d
    let others ← parseAll rest
    return first :: others

end

end Expression
end Domotics
