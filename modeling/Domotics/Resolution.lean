import Domotics.Alias
import Domotics.Catalog

/-!
Resolving a target to one device. An alias comes first, then the exact name of an item, the exact
identifier of a thing or a channel, and a label at last. A label that leaves several devices goes
through a tie-break: devices that accept the type of the value, among them the only default channel,
or the only device that is left.
-/

namespace Domotics

/-- What a lookup found: a device, or the devices between which it could not decide. -/
structure Resolution where
  status : LookupStatus
  reference : Option Description := none
  candidates : List Description := []
deriving DecidableEq, Inhabited, Repr

namespace Resolution

def notFound : Resolution := { status := .notFound }

def found (d : Description) : Resolution := { status := .resolved, reference := some d }

def ambiguous (ds : List Description) : Resolution := { status := .ambiguous, candidates := ds }

/-- A device found by its exact name. Connections belong to things, so for a status a channel stands
for its thing. -/
def exact (c : Catalog) (d : Description) (type : Option ValueType) : Resolution :=
  if type = some .status ∧ d.ref.kind = .channel then found ((c.thingOf? d.ref).getD d) else found d

/-- A thing stands for its channels, if it has any. -/
def expand (c : Catalog) (d : Description) : List Description :=
  if d.ref.kind = .thing then
    match (c.channelsOf d.ref.id).filterMap fun channel => c.describe? ⟨.channel, channel.uid⟩ with
    | [] => [d]
    | channels => channels
  else [d]

/-- The candidates that accept a type, or all if there is no type or none accepts it. -/
def pool (c : Catalog) (type : Option ValueType) (candidates : List Description) :
    List Description :=
  match type with
  | none => candidates
  | some t =>
    match candidates.filter fun d => ((c.accepted? d.ref).getD []).contains t with
    | [] => candidates
    | compatible => compatible

def tieBreak (c : Catalog) (type : Option ValueType) (candidates : List Description) :
    Option Description :=
  match candidates with
  | [d] => some d
  | _ =>
    let pool := pool c type candidates
    match pool.filter fun d => c.isDefault d.ref, pool with
    | [d], _ => some d
    | _, [d] => some d
    | _, _ => none

def byLabel (c : Catalog) (type : Option ValueType) (candidates : List Description) : Resolution :=
  match candidates with
  | [] => notFound
  | _ =>
    if type = some .status then
      match Catalog.appendNew [] (candidates.filterMap fun d => c.thingOf? d.ref) with
      | [thing] => found thing
      | things => ambiguous things
    else
      let expanded := Catalog.appendNew [] (candidates.flatMap (expand c))
      match tieBreak c type expanded with
      | some d => found d
      | none => ambiguous expanded

def byAlias (c : Catalog) (target : AliasTarget) (type : Option ValueType) : Result Resolution :=
  match target.id with
  | .text id =>
    match c.describe? ⟨target.kind, id⟩ with
    | some d => .ok (exact c d type)
    | none => .ok notFound
  | id => if id.isScalar then .ok notFound else Result.misuse (.unhashable id)

def byName (c : Catalog) (spec : String) (type : Option ValueType) : Resolution :=
  match c.describe? ⟨.item, spec⟩ with
  | some d => exact c d type
  | none => match c.describe? ⟨.thing, spec⟩ with
    | some d => exact c d type
    | none => match c.describe? ⟨.channel, spec⟩ with
      | some d => exact c d type
      | none => byLabel c type (c.labelled spec)

def ofText (aliases : AliasRegistry) (c : Catalog) (spec : String) (type : Option ValueType) :
    Result Resolution :=
  match aliases.lookup? spec with
  | some target => byAlias c target type
  | none => .ok (byName c spec type)

/-- Resolves a target as it is written. Only a text can name a device. -/
def ofTarget (aliases : AliasRegistry) (c : Catalog) (spec : Document) (type : Option ValueType) :
    Result Resolution :=
  match spec with
  | .text s => ofText aliases c s type
  | d => if d.isScalar then Result.misuse (.noAttribute d.kind "split") else Result.misuse (.unhashable d)

def strict (aliases : AliasRegistry) (c : Catalog) (spec : Document) (type : Option ValueType) :
    Result Description := do
  let r ← ofTarget aliases c spec type
  match r.reference with
  | some d => return d
  | none => .error (.unresolved spec r.status)

@[simp] theorem found_reference (d : Description) : (found d).reference = some d := rfl

@[simp] theorem found_status (d : Description) : (found d).status = .resolved := rfl

@[simp] theorem notFound_status : notFound.status = .notFound := rfl

end Resolution
end Domotics
