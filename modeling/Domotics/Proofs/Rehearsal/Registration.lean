import Domotics.Proofs.Catalog.Label
import Domotics.Proofs.Result
import Domotics.Rehearsal

/-!
The registration of devices for a rehearsal. A registration performs one or two operations on the catalog and is refused
if it performs none or the last one is not granted. What is refused is a mistake in the script and leaves the catalog as
it was, with one exception: a channel brings the thing that its identifier begins with along if that is new, and the
thing stays when the channel cannot be added because another thing has a channel of this identifier.
-/

namespace Domotics

namespace Catalog

variable {c : Catalog} {uid thing name : String} {fault : Fault}

def withThing (c : Catalog) (t : Thing) : Catalog := { c with things := c.things ++ [t], version := c.version + 1 }

def grantsLast (c : Catalog) : List Operation → Bool
  | [] => false
  | [op] => c.grants op
  | op :: rest => (c.perform op).grantsLast rest

def IsFree (c : Catalog) (uid : String) : Prop := c.thing? uid = none ∧ c.channel? uid = none

theorem withThing_ne (c : Catalog) (t : Thing) : c.withThing t ≠ c :=
  fun h => Nat.succ_ne_self c.version (congrArg version h)

section

variable {label location type bound : Option String} {accepts : List ValueType} {isDefault : Bool}

theorem addThing_of_isFree (hne : uid ≠ "") (h : c.IsFree uid) : c.addThing uid label location type =
    .ok ({ uid, label, location, type }, c.withThing { uid, label, location, type }) := by
  simp [addThing, hne, h.1, h.2, withThing]

theorem grants_addThing_iff (hne : uid ≠ "") :
    c.grants (.addThing uid label location type) = true ↔ c.IsFree uid := by
  constructor
  · intro hgrants
    cases hadd : c.addThing uid label location type with
    | error fault => simp [grants, hadd, Except.isOk, Except.toBool] at hgrants
    | ok added =>
      obtain ⟨hthing, hchannel, -⟩ := addThing_eq_ok hadd
      exact ⟨hthing, hchannel⟩
  · intro h
    rw [grants, addThing_of_isFree hne h]
    rfl

theorem grants_addChannel_iff : c.grants (.addChannel thing name accepts isDefault) = true ↔
    (c.thing? thing).isSome = true ∧ c.channel? (channelUid thing name) = none := by
  cases hthing : c.thing? thing <;> cases hchannel : c.channel? (channelUid thing name) <;>
    simp [grants, addChannel, hthing, hchannel, Except.isOk, Except.toBool]

theorem invalid_of_addThing (h : c.addThing uid label location type = .error fault) :
    ∃ cause, fault = .invalid cause := by
  simp only [addThing] at h
  split_ifs at h
  · exact ⟨_, (Except.error.inj h).symm⟩
  · exact ⟨_, (Except.error.inj h).symm⟩

theorem invalid_of_addChannel (h : c.addChannel thing name accepts isDefault = .error fault) :
    ∃ cause, fault = .invalid cause := by
  simp only [addChannel] at h
  split_ifs at h
  · exact ⟨_, (Except.error.inj h).symm⟩
  · exact ⟨_, (Except.error.inj h).symm⟩

theorem invalid_of_addItem (h : c.addItem name accepts bound = .error fault) : ∃ cause, fault = .invalid cause := by
  simp only [addItem] at h
  split_ifs at h
  · exact ⟨_, (Except.error.inj h).symm⟩
  · exact ⟨_, (Except.error.inj h).symm⟩
  · split at h
    · exact ⟨_, (Except.error.inj h).symm⟩
    · cases h

end

end Catalog

namespace Rehearsal

inductive Registration where
  | thing (label : String) (uid location : Option String)
  | channel (label : String) (accepts : List ValueType) (uid location : Option String)
  | item (name : String) (accepts : List ValueType) (channel : Option String)

def keeping (r : Rehearsal) : Result (Description × Rehearsal) → Rehearsal × Result Description
  | .ok (d, r') => (r', .ok d)
  | .error fault => (r, .error fault)

def register (r : Rehearsal) : Registration → Rehearsal × Result Description
  | .thing label uid location => r.keeping (r.addThing label uid location)
  | .channel label accepts uid location => r.addChannel label accepts uid location
  | .item name accepts channel => r.keeping (r.addItem name accepts channel)

namespace Registration

/-- The identifier of a thing: the one that is asked for, or one made from the label. -/
def thingIdentifier (label : String) (uid : Option String) : String :=
  (uid.filter (· != "")).getD ("test:thing:" ++ label)

def channelIdentifier (label : String) (uid : Option String) : String :=
  (uid.filter (· != "")).getD ("test:channel:" ++ label ++ ":value")

def thingOf (label uid : String) (location : Option String) : Thing :=
  { uid, label := some label, location, type := some "test" }

/-- The operations for a channel of a thing. The thing is tried even if it is registered. -/
def channelOperations (label owner name : String) (accepts : List ValueType) (location : Option String) :
    List Catalog.Operation :=
  [.addThing owner (some label) location (some "test"), .addChannel owner name accepts true]

def operations : Registration → List Catalog.Operation
  | thing label uid location => [.addThing (thingIdentifier label uid) (some label) location (some "test")]
  | channel label accepts uid location =>
    if accepts.isEmpty then []
    else match Text.cutLast ':' (channelIdentifier label uid) with
      | none => []
      | some (owner, name) =>
        if owner = "" ∨ name = "" then []
        else channelOperations label owner name accepts location
  | item name accepts bound => if accepts.isEmpty then [] else [.addItem name accepts bound]

theorem cutLast_eq_some_iff {uid thing name : String} :
    Text.cutLast ':' uid = some (thing, name) ↔ uid = Catalog.channelUid thing name ∧ ':' ∉ name.toList := by
  rw [Text.cutLast_eq_some_iff, ← String.toList_inj]
  simp [Catalog.channelUid]

/-- An identifier that names a channel of a thing: what stands before and after its last colon. -/
structure Parts (uid owner name : String) : Prop where
  eq : uid = Catalog.channelUid owner name
  last : ':' ∉ name.toList
  owner_ne : owner ≠ ""
  name_ne : name ≠ ""

/-- A channel strands a thing: the thing is new, and the identifier of the channel is in use. -/
inductive Strands (c : Catalog) : Registration → Thing → Prop
  | channel {label : String} {accepts : List ValueType} {uid location : Option String} {owner name : String}
      (types : accepts ≠ [])
      (parts : Parts (channelIdentifier label uid) owner name)
      (free : c.IsFree owner)
      (taken : (c.channel? (Catalog.channelUid owner name)).isSome = true) :
      Strands c (channel label accepts uid location) (thingOf label owner location)

section

variable {label owner name : String} {accepts : List ValueType} {uid location : Option String}

theorem Parts.operations_eq (types : accepts ≠ []) (h : Parts (channelIdentifier label uid) owner name) :
    (channel label accepts uid location).operations = channelOperations label owner name accepts location := by
  simp [operations, types, cutLast_eq_some_iff.mpr ⟨h.eq, h.last⟩, h.owner_ne, h.name_ne]

/-- A channel without types, or with an identifier that is not one of a channel, is refused at once. -/
theorem operations_eq_nil_or_parts (label : String) (accepts : List ValueType) (uid location : Option String) :
    (channel label accepts uid location).operations = [] ∨
      accepts ≠ [] ∧ ∃ owner name, Parts (channelIdentifier label uid) owner name := by
  simp only [operations]
  split
  · exact .inl rfl
  next types =>
  split
  · exact .inl rfl
  next owner name hcut =>
  split
  · exact .inl rfl
  next hne =>
  obtain ⟨heq, hlast⟩ := cutLast_eq_some_iff.mp hcut
  exact .inr ⟨by simpa using types, owner, name, heq, hlast, (not_or.mp hne).1, (not_or.mp hne).2⟩

end

end Registration

/-- What comes of a registration that performs some operations: they are performed, the registration succeeds if the
last of them is granted, and otherwise the script is wrong. -/
structure Performs (r : Rehearsal) (ops : List Catalog.Operation) (outcome : Rehearsal × Result Description) :
    Prop where
  state : outcome.1 = r.withCatalog (r.catalog.run ops)
  isOk : outcome.2.isOk = r.catalog.grantsLast ops
  setup : ∀ fault, outcome.2 = .error fault → fault.category = .rehearsalSetup

section

variable {r : Rehearsal} {α : Type} {ref : Reference} {fault : Fault}

theorem performs_nothing (r : Rehearsal) (cause : SetupFault) : r.Performs [] (r, .error (.setup cause)) where
  state := rfl
  isOk := rfl
  setup fault h := by
    cases h
    rfl

theorem performs_addition {op : Catalog.Operation} {x : Result (α × Catalog)}
    (hperform : r.catalog.perform op = r.catalog.after x) (hgrants : r.catalog.grants op = x.isOk)
    (hinvalid : ∀ fault, x = .error fault → ∃ cause, fault = .invalid cause) :
    r.Performs [op] (r.keeping (do
      let (_, c) ← rejecting x
      return (described c ref, r.withCatalog c))) := by
  have hrun : r.catalog.run [op] = r.catalog.after x := hperform
  have hlast : r.catalog.grantsLast [op] = x.isOk := hgrants
  cases x with
  | ok added => exact ⟨by rw [hrun]; rfl, by rw [hlast]; rfl, nofun⟩
  | error f =>
    obtain ⟨cause, rfl⟩ := hinvalid f rfl
    refine ⟨by rw [hrun]; rfl, by rw [hlast]; rfl, fun fault h => ?_⟩
    cases h
    rfl

theorem performs_thing (r : Rehearsal) (label : String) (uid location : Option String) :
    r.Performs (Registration.thing label uid location).operations (r.register (.thing label uid location)) :=
  performs_addition rfl rfl fun _ => Catalog.invalid_of_addThing

theorem performs_item (r : Rehearsal) (name : String) (accepts : List ValueType) (bound : Option String) :
    r.Performs (Registration.item name accepts bound).operations (r.register (.item name accepts bound)) := by
  rw [Registration.operations, register, addItem]
  split
  · exact r.performs_nothing _
  · exact performs_addition rfl rfl fun _ => Catalog.invalid_of_addItem

theorem Performs.after {op o : Catalog.Operation} {rest : List Catalog.Operation}
    {outcome : Rehearsal × Result Description}
    (h : (r.withCatalog (r.catalog.perform op)).Performs (o :: rest) outcome) : r.Performs (op :: o :: rest) outcome :=
  ⟨h.state, h.isOk, h.setup⟩

theorem performs_refused {op : Catalog.Operation} {cause : InvalidFault} (h : r.catalog.grants op = false) :
    r.Performs [op] (r, .error (.setup (.rejected cause))) where
  state := (congrArg r.withCatalog (Catalog.perform_of_not_grants h)).symm
  isOk := h.symm
  setup fault h := by
    cases h
    rfl

theorem performs_addChannel (r : Rehearsal) (owner name : String) (accepts : List ValueType) :
    r.Performs [.addChannel owner name accepts true]
      (match rejecting (r.catalog.addChannel owner name accepts true) with
      | .error fault => (r, .error fault)
      | .ok (_, c) => (r.withCatalog c, .ok (described c ref))) := by
  have h : r.Performs [.addChannel owner name accepts true] (r.keeping (do
      let (_, c) ← rejecting (r.catalog.addChannel owner name accepts true)
      return (described c ref, r.withCatalog c))) :=
    performs_addition rfl rfl fun _ => Catalog.invalid_of_addChannel
  cases hadd : rejecting (r.catalog.addChannel owner name accepts true) <;> rw [hadd] at h <;> exact h

theorem performs_channel (r : Rehearsal) (label : String) (accepts : List ValueType) (uid location : Option String) :
    r.Performs (Registration.channel label accepts uid location).operations
      (r.register (.channel label accepts uid location)) := by
  rw [Registration.operations, register, addChannel]
  split
  · exact r.performs_nothing _
  simp only [Registration.channelIdentifier]
  cases hcut : Text.cutLast ':' ((uid.filter (· != "")).getD ("test:channel:" ++ label ++ ":value")) with
  | none => exact r.performs_nothing _
  | some parts =>
    obtain ⟨owner, name⟩ := parts
    simp only
    split
    · exact r.performs_nothing _
    next hparts =>
    refine Performs.after ?_
    -- A registered thing is not granted again, so that nothing comes of trying.
    have htry : r.catalog.grants (.addThing owner (some label) location (some "test")) = false →
        r.withCatalog (r.catalog.perform (.addThing owner (some label) location (some "test"))) = r := by
      intro hgrants
      rw [Catalog.perform_of_not_grants hgrants]
      rfl
    cases howner : r.catalog.thing? owner with
    | some t =>
      have hrefused : r.catalog.grants (.addThing owner (some label) location (some "test")) = false := by
        rw [Bool.eq_false_iff, ne_eq, Catalog.grants_addThing_iff (not_or.mp hparts).1]
        rintro ⟨hnone, -⟩
        simp [howner] at hnone
      rw [htry hrefused]
      exact r.performs_addChannel owner name accepts
    | none =>
      cases hadd : r.catalog.addThing owner (some label) location (some "test") with
      | ok added =>
        rw [Catalog.perform, hadd]
        exact performs_addChannel (r.withCatalog added.2) owner name accepts
      | error fault =>
        obtain ⟨cause, rfl⟩ := Catalog.invalid_of_addThing hadd
        rw [htry (by simp [Catalog.grants, hadd, Except.isOk, Except.toBool])]
        refine performs_refused ?_
        rw [Bool.eq_false_iff, ne_eq, Catalog.grants_addChannel_iff, howner]
        simp

theorem register_performs (r : Rehearsal) (g : Registration) : r.Performs g.operations (r.register g) := by
  cases g with
  | thing label uid location => exact r.performs_thing label uid location
  | channel label accepts uid location => exact r.performs_channel label accepts uid location
  | item name accepts channel => exact r.performs_item name accepts channel

end

section

variable {r : Rehearsal} {g : Registration} {t : Thing}

theorem withCatalog_eq_self_iff {c : Catalog} : r.withCatalog c = r ↔ c = r.catalog := by
  constructor
  · exact fun h => congrArg catalog h
  · rintro rfl
    rfl

namespace Registration

variable {c : Catalog} {label owner name : String} {accepts : List ValueType} {uid location : Option String}

/-- A channel is not granted to a thing that cannot be registered, nor under an identifier in use. -/
theorem grantsLast_channelOperations_iff (hne : owner ≠ "") :
    c.grantsLast (channelOperations label owner name accepts location) = true ↔
      c.channel? (Catalog.channelUid owner name) = none ∧ ((c.thing? owner).isSome = true ∨ c.IsFree owner) := by
  simp only [channelOperations, Catalog.grantsLast]
  by_cases hfree : c.IsFree owner
  · rw [Catalog.perform, Catalog.addThing_of_isFree hne hfree, Catalog.after, Catalog.grants_addChannel_iff]
    simp [Catalog.withThing, Catalog.thing?, Catalog.channel?, hfree]
  · rw [Catalog.perform_of_not_grants (by rwa [Bool.eq_false_iff, ne_eq, Catalog.grants_addThing_iff hne]),
      Catalog.grants_addChannel_iff]
    tauto

theorem run_channelOperations_of_refused (hne : owner ≠ "")
    (hrefused : c.grantsLast (channelOperations label owner name accepts location) = false) :
    (c.IsFree owner ∧ c.run (channelOperations label owner name accepts location) =
        c.withThing (thingOf label owner location)) ∨
      ¬c.IsFree owner ∧ c.run (channelOperations label owner name accepts location) = c := by
  have hrun : c.run (channelOperations label owner name accepts location) =
      c.perform (.addThing owner (some label) location (some "test")) :=
    Catalog.perform_of_not_grants (show Catalog.grants _ (.addChannel owner name accepts true) = false from hrefused)
  rw [hrun]
  by_cases hfree : c.IsFree owner
  · refine .inl ⟨hfree, ?_⟩
    rw [Catalog.perform, Catalog.addThing_of_isFree hne hfree]
    rfl
  · refine .inr ⟨hfree, Catalog.perform_of_not_grants ?_⟩
    rwa [Bool.eq_false_iff, ne_eq, Catalog.grants_addThing_iff hne]

theorem Strands.run_operations (h : g.Strands c t) :
    c.grantsLast g.operations = false ∧ c.run g.operations = c.withThing t := by
  cases h with
  | @channel label accepts uid location owner name types parts free taken =>
    rw [parts.operations_eq types]
    have hrefused : c.grantsLast (channelOperations label owner name accepts location) = false := by
      rw [Bool.eq_false_iff, ne_eq, grantsLast_channelOperations_iff parts.owner_ne]
      rintro ⟨hnone, -⟩
      simp [hnone] at taken
    rcases run_channelOperations_of_refused parts.owner_ne hrefused with ⟨-, hrun⟩ | ⟨hnot, -⟩
    · exact ⟨hrefused, hrun⟩
    · exact absurd free hnot

/-- A refused registration leaves the catalog as it was if it strands no thing. -/
theorem run_operations_of_refused (hrefused : c.grantsLast g.operations = false)
    (hstrands : ∀ t, ¬g.Strands c t) : c.run g.operations = c := by
  cases g with
  | thing label uid location => exact Catalog.perform_of_not_grants hrefused
  | item name accepts bound =>
    cases accepts with
    | nil => rfl
    | cons type rest => exact Catalog.perform_of_not_grants hrefused
  | channel label accepts uid location =>
    rcases operations_eq_nil_or_parts label accepts uid location with hnil | ⟨types, owner, name, parts⟩
    · rw [hnil]
      rfl
    rw [parts.operations_eq types] at hrefused ⊢
    rcases run_channelOperations_of_refused parts.owner_ne hrefused with ⟨free, -⟩ | ⟨-, hrun⟩
    · rw [Bool.eq_false_iff, ne_eq, grantsLast_channelOperations_iff parts.owner_ne] at hrefused
      have taken : (c.channel? (Catalog.channelUid owner name)).isSome = true := by
        rw [Option.isSome_iff_ne_none]
        exact fun hnone => hrefused ⟨hnone, .inr free⟩
      exact absurd (.channel types parts free taken) (hstrands _)
    · exact hrun

/-- The thing that is stranded goes on after another one, to which the identifier of the channel belongs. -/
theorem Strands.continues (h : g.Strands c t) (hc : c.Consistent) :
    ∃ other ∈ c.things, Catalog.Continues t.uid other.uid := by
  cases h with
  | @channel label accepts uid location owner name types parts free taken =>
    obtain ⟨channel, hchannel⟩ := Option.isSome_iff_exists.mp taken
    obtain ⟨hmem, huid⟩ := hc.channel?_eq_some_iff.mp hchannel
    obtain ⟨other, hother, hthing⟩ := hc.owned channel hmem
    refine ⟨other, hother, ?_⟩
    rw [hc.named channel hmem, ← hthing, Catalog.channelUid_eq_channelUid_iff] at huid
    rcases huid with ⟨hsame, -⟩ | ⟨rest, hcontinues, -⟩ | ⟨rest, -, hname⟩
    · exact absurd hsame (Catalog.thing?_eq_none_iff.mp free.1 other hother)
    · exact ⟨rest, hcontinues⟩
    · exact absurd (by simp [hname, Catalog.channelUid]) parts.last

end Registration

/-- After whatever has been registered and removed, a registration that fails is a mistake in the script, and
everything stays as it was unless a thing is stranded. A channel that strands a thing always fails, and leaves the
thing behind; the identifier of such a thing goes on after that of another one. In any case nothing is done that could
not be done to the catalog itself. -/
theorem failed_registration (r : Rehearsal) (g : Registration) (ops : List Catalog.Operation)
    (hcatalog : r.catalog = Catalog.run {} ops) :
    (∀ fault, (r.register g).2 = .error fault →
      fault.category = .rehearsalSetup ∧ ((r.register g).1 = r ↔ ∀ t, ¬g.Strands r.catalog t)) ∧
    (∀ t, g.Strands r.catalog t → (r.register g).2.isOk = false ∧
      (r.register g).1 = r.withCatalog (r.catalog.withThing t) ∧
      ∃ other ∈ r.catalog.things, Catalog.Continues t.uid other.uid) ∧
    ∃ more, (r.register g).1.catalog = Catalog.run {} (ops ++ more) := by
  have hc : r.catalog.Consistent := hcatalog ▸ Catalog.consistent_empty.run ops
  have h := r.register_performs g
  refine ⟨fun fault hfault => ⟨h.setup fault hfault, ?_⟩, fun t hstrands => ?_, g.operations, ?_⟩
  · have hrefused : r.catalog.grantsLast g.operations = false := by
      rw [← h.isOk, hfault]
      rfl
    rw [h.state, withCatalog_eq_self_iff]
    constructor
    · intro hsame t hstrands
      exact Catalog.withThing_ne _ t (hstrands.run_operations.2.symm.trans hsame)
    · exact Registration.run_operations_of_refused hrefused
  · obtain ⟨hrefused, hrun⟩ := hstrands.run_operations
    exact ⟨h.isOk.trans hrefused, by rw [h.state, hrun], hstrands.continues hc⟩
  · have hrun : Catalog.run {} (ops ++ g.operations) = (Catalog.run {} ops).run g.operations := List.foldl_append
    rw [h.state, hrun, hcatalog]
    rfl

/-- A hub with a channel whose name has a colon. -/
def porchOps : List Catalog.Operation :=
  [.addThing "hub" none none none, .addChannel "hub" "porch:light" [.onOff] false]

/-- The hub is not registered once more. -/
theorem hub_stays_as_it_is :
    let r := (default : Rehearsal).withCatalog (Catalog.run {} porchOps)
    let g := Registration.thing "Hub" (some "hub") none
    r.catalog = Catalog.run {} porchOps ∧
      (r.register g).2 = .error (.setup (.rejected (.deviceExists "hub"))) ∧ (r.register g).1 = r := by
  intro r g
  have hfault : (r.register g).2 = .error (.setup (.rejected (.deviceExists "hub"))) := by rfl
  have hstrands : ∀ t, ¬Registration.Strands r.catalog (.thing "Hub" (some "hub") none) t := by
    intro t h
    cases h
  exact ⟨rfl, hfault, ((failed_registration r g porchOps rfl).1 _ hfault).2.mpr hstrands⟩

/-- The light of the porch is refused, as the hub has a channel of this identifier. The porch stays. -/
theorem porch_stays_without_light :
    let r := (default : Rehearsal).withCatalog (Catalog.run {} porchOps)
    let g := Registration.channel "Porch" [.onOff] (some "hub:porch:light") none
    (r.register g).2 = .error (.setup (.rejected (.channelExists "hub:porch:light"))) ∧
      r.catalog.things.map (·.uid) = ["hub"] ∧ r.catalog.version = 2 ∧
      (r.register g).1.catalog.things.map (·.uid) = ["hub", "hub:porch"] ∧ (r.register g).1.catalog.version = 3 :=
  ⟨rfl, by decide +kernel, by decide +kernel, by decide +kernel, by decide +kernel⟩

end

end Rehearsal
end Domotics
