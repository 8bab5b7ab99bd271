import Domotics.Device
import Domotics.Document.Kind
import Domotics.Schedule.Bound
import Domotics.Time.Moment

/-!
What can go wrong. A fault is a cause with the values that it concerns; its category says what kind
of mistake it is, and its message puts it in words.
-/

namespace Domotics

inductive LookupStatus where
  | resolved | notFound | ambiguous
deriving DecidableEq, Inhabited, Repr

def LookupStatus.name : LookupStatus → String
  | resolved => "resolved"
  | notFound => "not_found"
  | ambiguous => "ambiguous"

/-- What an alias is declared to stand for. The identifier is kept as it was written. -/
structure AliasTarget where
  kind : DeviceKind
  id : Document
deriving Inhabited, Repr

def AliasTarget.text (t : AliasTarget) : String := t.kind.name ++ ":" ++ t.id.asText

def AliasTarget.agrees (a b : AliasTarget) : Bool := a.kind == b.kind && a.id.agrees b.id

def AliasTarget.ofReference (r : Reference) : AliasTarget := ⟨r.kind, .text r.id⟩

inductive ScheduleFault where
  | baseMissing
  | outsideDay (b : Bound)
  | crossesMidnight (start finish : Bound)
  | noDays
  | militaryTime (value : Int)
  | offset (raw : Document)
  | time (raw : Document)
  | dayNumber (n : Int)
  | dayName (name : String)
  | tailTooLong (d : Duration)
  | entryShape (raw : Document)
  | entryDays (raw : Document)
  | spanShape (raw : Document)
deriving Inhabited, Repr

/-- Values that are well-formed documents but mean nothing where they stand. -/
inductive InvalidFault where
  | notMember (raw : Document) (family : String)
  | unsupported (raw : Document)
  | unparsable (raw : Document) (type : ValueType)
  | integer (digits : String)
  | integerLength (count : Nat)
  | notANumber
  | emptyThing
  | deviceExists (uid : String)
  | noThing (uid : String)
  | channelExists (uid : String)
  | emptyItem
  | itemExists (name : String)
  | noChannel (uid : String)
  | duration (raw : Document)
  | emptyTarget
  | needsValue (kind : String) (target : Document)
  | needsFrom (target : Document)
  | interval
  | emptyRuleName
  | ruleCooldown (name : Document)
  | cooldown
  | ruleShape (raw : Document)
  | ruleName (raw : Document)
  | unknownAction (name : Document)
  | expressionShape (raw : Document)
  | expressionList (kind : String) (raw : Document)
  | timeShape (raw : Document)
  | unknownExpression (kind : String)
  | predicateShape (kind : String) (raw : Document)
  | missingKey (context key : String) (raw : Document)
  | retriggerDay (raw : Document)
  | retriggerShape (raw : Document)
  | aliasShape (name : String)
  | aliasKind (name kind : String)
  | emptyAlias
  | duplicateRule (name : Document)
  | emptyActionName
  | noOccurrence (b : Bound) (after : Moment)
  | template (reason : String)
deriving Inhabited, Repr

inductive SetupFault where
  | rejected (cause : InvalidFault)
  | channelTypes (label : String)
  | itemTypes (name : String)
  | channelUid (uid : String)
  | notStatus (v : Value)
  | negativeDelay (seconds : Document)
  | target (spec : Document) (status : LookupStatus)
  | unknownRule (name : Document)
deriving Inhabited, Repr

inductive ClockFault where
  | noOffset
  | backwards (now requested : Moment)
  | stuck (tick : Moment)
deriving Inhabited, Repr

inductive RefusedFault where
  | frozen (name : String)
  | action (message : String)
deriving Inhabited, Repr

/-- A document of a kind on which an operation is not defined, and results that leave the range of
dates or durations. -/
inductive MisuseFault where
  | notIterable (raw : Document)
  | noLength (raw : Document)
  | noContainment (raw : Document)
  | notIndexed (kind : Kind)
  | kindNotIndexed (k : Kind)
  | unhashable (raw : Document)
  | notOrdered (raw : Document)
  | notAdded (raw : Document)
  | noAttribute (kind : Kind) (name : String)
  | kindHasNoAttribute (k : Kind) (name : String)
  | valueHasNoAttribute (v : Value) (name : String)
  | noEngine (name : String)
  | noKey (key : String)
  | noPosition (index : Nat)
  | noItem (kind : Kind)
  | notFormatted (kind : Kind)
  | mixedOffsets (difference : Bool)
  | dateRange
  | durationRange (days : Int)
  | realRange
  | infiniteReal
  | wordRange
  | characterRange
deriving Inhabited, Repr

/-- A cause of failure. -/
inductive Fault where
  | aliasConflict (name : String) (bound requested : AliasTarget)
  | unresolved (spec : Document) (status : LookupStatus)
  | typeMismatch (spec : Document) (requested : Option ValueType) (accepted : List ValueType)
  | schedule (cause : ScheduleFault)
  | invalid (cause : InvalidFault)
  | setup (cause : SetupFault)
  | clock (cause : ClockFault)
  | refused (cause : RefusedFault)
  | misuse (cause : MisuseFault)
deriving Inhabited, Repr

inductive FaultCategory where
  | aliasConflict | resolution | typeMismatch | scheduleConfig | rehearsal | rehearsalSetup
  | invalidValue | refusal | wrongType | missingAttribute | missingKey | missingPosition | overflow
deriving DecidableEq, Inhabited, Repr

def MisuseFault.category : MisuseFault → FaultCategory
  | noAttribute .. | kindHasNoAttribute .. | valueHasNoAttribute .. | noEngine .. => .missingAttribute
  | noKey .. => .missingKey
  | noPosition .. | noItem .. => .missingPosition
  | dateRange | durationRange .. | realRange | infiniteReal | wordRange | characterRange =>
    .overflow
  | _ => .wrongType

def Fault.category : Fault → FaultCategory
  | aliasConflict .. => .aliasConflict
  | unresolved .. => .resolution
  | typeMismatch .. => .typeMismatch
  | schedule _ => .scheduleConfig
  | invalid _ => .invalidValue
  | setup _ => .rehearsalSetup
  | clock _ => .rehearsal
  | refused _ => .refusal
  | misuse cause => cause.category

/-- Faults of the rules' own making: a target that does not resolve or a value of the wrong type.
Rules that carry on after errors absorb exactly these. -/
def Fault.isAbsorbable : Fault → Bool
  | unresolved .. | typeMismatch .. => true
  | _ => false

/-- Faults that belong to the vocabulary of rules, schedules and rehearsals. -/
def Fault.isDomain (f : Fault) : Bool :=
  match f.category with
  | .aliasConflict | .resolution | .typeMismatch | .scheduleConfig | .rehearsal
  | .rehearsalSetup => true
  | _ => false

abbrev Result (α : Type) := Except Fault α

namespace Result

abbrev schedule {α : Type} (cause : ScheduleFault) : Result α := .error (.schedule cause)

abbrev invalid {α : Type} (cause : InvalidFault) : Result α := .error (.invalid cause)

abbrev misuse {α : Type} (cause : MisuseFault) : Result α := .error (.misuse cause)

end Result

@[simp] theorem isAbsorbable_unresolved (spec : Document) (s : LookupStatus) :
    (Fault.unresolved spec s).isAbsorbable = true := rfl

@[simp] theorem isAbsorbable_typeMismatch (spec : Document) (t : Option ValueType)
    (a : List ValueType) : (Fault.typeMismatch spec t a).isAbsorbable = true := rfl

@[simp] theorem isAbsorbable_misuse (c : MisuseFault) : (Fault.misuse c).isAbsorbable = false := rfl

end Domotics
