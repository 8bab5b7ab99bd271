import Domotics.Fault

/-!
Named stores of documents. Stores and keys are named by scalars, which agree by value.
-/

namespace Domotics

structure Storage where
  stores : List (Document × List (Document × Document)) := []
deriving Inhabited, Repr

namespace Storage

/-- Lists and objects name nothing. -/
def checkName (name : Document) : Result Unit :=
  if name.isScalar then .ok () else Result.misuse (.unhashable name)

def find? {α : Type} (name : Document) (entries : List (Document × α)) : Option α :=
  (entries.find? (·.1.agrees name)).map (·.2)

def assign {α : Type} (name : Document) (value : α) : List (Document × α) → List (Document × α)
  | [] => [(name, value)]
  | (n, v) :: rest =>
    if n.agrees name then (n, value) :: rest else (n, v) :: assign name value rest

def entriesOf (s : Storage) (store : Document) : List (Document × Document) :=
  (find? store s.stores).getD []

def get? (s : Storage) (store key : Document) : Result (Option Document) := do
  checkName store
  checkName key
  return find? key (s.entriesOf store)

def put (s : Storage) (store key value : Document) : Result Storage := do
  checkName store
  checkName key
  return ⟨assign store (assign key value (s.entriesOf store)) s.stores⟩

/-- Removes a key of a store, and gives the value that it had. A store without entries has no key to
compare with, and anything can be removed from it. -/
def remove (s : Storage) (store key : Document) : Result (Option Document × Storage) := do
  checkName store
  let entries := s.entriesOf store
  if !entries.isEmpty then checkName key
  return (find? key entries, ⟨assign store (entries.filter (!·.1.agrees key)) s.stores⟩)

/-- The count after one more, starting from a value that is not set or a number. -/
def countAfter (previous : Option Document) : Result Document :=
  let d := previous.getD .null
  if !d.isSet then .ok (.int 1)
  else match d.toNumber? with
    | some x => .ok (.number x.next)
    | none => Result.misuse (.notAdded d)

end Storage
end Domotics
