import Domotics.Number

/-!
Documents: the tree of values that a configuration file holds. The entries of an object keep their
order, integers are exact and are told apart from floating-point numbers.
-/

namespace Domotics

/-- A configuration value. -/
inductive Document where
  | null
  | bool (b : Bool)
  | number (x : Number)
  | text (s : String)
  | list (items : List Document)
  | object (entries : List (String × Document))
deriving Inhabited, Repr

namespace Document

abbrev int (n : Int) : Document := .number (.int n)

def entry? (key : String) (entries : List (String × Document)) : Option Document :=
  (entries.find? (·.1 == key)).map (·.2)

/-- Adds an entry at the end, or changes the value of a key in its place. -/
def putEntry (key : String) (value : Document) :
    List (String × Document) → List (String × Document)
  | [] => [(key, value)]
  | (k, v) :: rest => if k = key then (k, value) :: rest else (k, v) :: putEntry key value rest

def get? (key : String) : Document → Option Document
  | object entries => entry? key entries
  | _ => none

/-- A document counts as set unless it is null, false, zero or empty. -/
def isSet : Document → Bool
  | null => false
  | bool b => b
  | number x => !x.isZero
  | text s => s != ""
  | list items => !items.isEmpty
  | object entries => !entries.isEmpty

/-- Scalars can be names; lists and objects cannot. -/
def isScalar : Document → Bool
  | list _ => false
  | object _ => false
  | _ => true

def toNumber? : Document → Option Number
  | bool b => some (.int (if b then 1 else 0))
  | number x => some x
  | _ => none

mutual

/-- Equality of parts of a document: truth values are the numbers 0 and 1, numbers agree by value,
lists item by item, and objects key by key in any order. -/
def agrees : Document → Document → Bool
  | null, d => match d with | null => true | _ => false
  | bool a, d => match d.toNumber? with
    | some y => (Number.int (if a then 1 else 0)).agrees y
    | none => false
  | number x, d => match d.toNumber? with
    | some y => x.agrees y
    | none => false
  | text s, d => match d with | text t => s == t | _ => false
  | list xs, d => match d with | list ys => agreesList xs ys | _ => false
  | object xs, d => match d with
    | object ys => xs.length == ys.length && agreesEntries xs ys
    | _ => false
termination_by structural d => d

def agreesList : List Document → List Document → Bool
  | [], ys => ys.isEmpty
  | x :: xs, ys => match ys with
    | [] => false
    | y :: ys => agrees x y && agreesList xs ys
termination_by structural xs => xs

def agreesEntries : List (String × Document) → List (String × Document) → Bool
  | [], _ => true
  | e :: xs, ys => agreesEntry e ys && agreesEntries xs ys
termination_by structural xs => xs

def agreesEntry : String × Document → List (String × Document) → Bool
  | (key, value), ys => match entry? key ys with
    | some other => agrees value other
    | none => false
termination_by structural e => e

end

/-- Equality of whole documents: as for parts, but a value that is not a number differs from
itself. -/
def equals : Document → Document → Bool
  | number x, number y => x.equals y
  | d, e => agrees d e

@[simp] theorem entry?_nil (key : String) : entry? key [] = none := rfl

theorem entry?_putEntry (key k : String) (value : Document) (entries : List (String × Document)) :
    entry? k (putEntry key value entries) = if k = key then some value else entry? k entries := by
  induction entries with
  | nil =>
    by_cases h : k = key
    · simp [putEntry, entry?, h]
    · simp [putEntry, entry?, h, Ne.symm h]
  | cons e rest ih =>
    obtain ⟨k', v⟩ := e
    by_cases h : k' = key
    · subst h
      by_cases hk : k = k'
      · simp [putEntry, entry?, hk]
      · simp [putEntry, entry?, hk, Ne.symm hk]
    · by_cases hk : k' = k
      · subst hk; simp [putEntry, entry?, h]
      · simpa [putEntry, entry?, h, hk] using ih

@[simp] theorem isSet_null : isSet null = false := rfl

end Document
end Domotics
