import Domotics.Fault

/-!
The catalog of devices: things with their channels, and items. It knows which values a device accepts
and finds devices by their labels; it holds no states. Its version grows with every change.
-/

namespace Domotics

/-- The registered devices in the order of their registration. -/
structure Catalog where
  things : List Thing := []
  channels : List Channel := []
  items : List Item := []
  version : Nat := 0
deriving DecidableEq, Inhabited, Repr

namespace Catalog

def thing? (c : Catalog) (uid : String) : Option Thing := c.things.find? (·.uid == uid)

def channel? (c : Catalog) (uid : String) : Option Channel := c.channels.find? (·.uid == uid)

def item? (c : Catalog) (name : String) : Option Item := c.items.find? (·.name == name)

def channelUid (thing name : String) : String := thing ++ ":" ++ name

def addThing (c : Catalog) (uid : String) (label location type : Option String) :
    Result (Thing × Catalog) :=
  if uid = "" then Result.invalid .emptyThing
  else if (c.thing? uid).isSome || (c.channel? uid).isSome then Result.invalid (.deviceExists uid)
  else
    let t : Thing := { uid, label, location, type }
    .ok (t, { c with things := c.things ++ [t], version := c.version + 1 })

def attach (thing uid : String) (t : Thing) : Thing :=
  if t.uid = thing then { t with channels := t.channels ++ [uid] } else t

def addChannel (c : Catalog) (thing name : String) (accepts : List ValueType) (isDefault : Bool) :
    Result (Channel × Catalog) :=
  let uid := channelUid thing name
  if (c.thing? thing).isNone then Result.invalid (.noThing thing)
  else if (c.channel? uid).isSome then Result.invalid (.channelExists uid)
  else
    let channel : Channel := { uid, thing, name, accepts, isDefault }
    .ok (channel,
      { c with
        things := c.things.map (attach thing uid)
        channels := c.channels ++ [channel]
        version := c.version + 1 })

/-- Registers an item, which may be bound to a registered channel. -/
def addItem (c : Catalog) (name : String) (accepts : List ValueType) (channel : Option String) :
    Result (Item × Catalog) :=
  if name = "" then Result.invalid .emptyItem
  else if (c.item? name).isSome then Result.invalid (.itemExists name)
  else match channel.filter fun uid => uid != "" && (c.channel? uid).isNone with
    | some uid => Result.invalid (.noChannel uid)
    | none =>
      let item : Item := { name, accepts, channel }
      .ok (item, { c with items := c.items ++ [item], version := c.version + 1 })

def removeThing (c : Catalog) (uid : String) : Bool × Catalog :=
  match c.thing? uid with
  | none => (false, c)
  | some t =>
    (true,
      { c with
        things := c.things.filter (·.uid != uid)
        channels := c.channels.filter (!t.channels.contains ·.uid)
        version := c.version + 1 })

def channelsOf (c : Catalog) (uid : String) : List Channel :=
  match c.thing? uid with
  | none => []
  | some t => t.channels.filterMap c.channel?

def describe? (c : Catalog) (r : Reference) : Option Description :=
  match r.kind with
  | .item => (c.item? r.id).map fun _ => { ref := r }
  | .thing => (c.thing? r.id).map fun t => { ref := r, location := t.location, label := t.label }
  | .channel => (c.channel? r.id).map fun channel =>
    let owner := c.thing? channel.thing
    { ref := r, location := owner.bind (·.location), label := owner.bind (·.label) }

def thingOf? (c : Catalog) (r : Reference) : Option Description :=
  match r.kind with
  | .item => none
  | .thing => c.describe? r
  | .channel => (c.channel? r.id).bind fun channel => c.describe? ⟨.thing, channel.thing⟩

def isDefault (c : Catalog) (r : Reference) : Bool :=
  r.kind = .channel && ((c.channel? r.id).map (·.isDefault)).getD false

/-- The types that a device accepts. Things carry their connection only. -/
def accepted? (c : Catalog) (r : Reference) : Option (List ValueType) :=
  match r.kind with
  | .thing => (c.thing? r.id).map fun _ => [.status]
  | .channel => (c.channel? r.id).map (·.accepts)
  | .item => (c.item? r.id).map (·.accepts)

def appendNew (found : List Description) : List Description → List Description
  | [] => found
  | d :: rest =>
    appendNew (if found.any (·.ref == d.ref) then found else found ++ [d]) rest

/-- The devices of one thing that a label names: the thing itself by its label or by location and
label, or one of its channels by label and name or by location, label and name. -/
def matchesOf (spec : String) (parts : List String) (t : Thing) : List Reference :=
  let whole := if t.label = some spec then [⟨.thing, t.uid⟩] else []
  let qualified := match parts with
    | [first, second] =>
      (if t.location = some first ∧ t.label = some second then [⟨.thing, t.uid⟩] else [])
        ++ (if t.label = some first then [⟨.channel, channelUid t.uid second⟩] else [])
    | [location, label, name] =>
      if t.location = some location ∧ t.label = some label then
        [⟨.channel, channelUid t.uid name⟩]
      else []
    | _ => []
  whole ++ qualified

/-- The devices that a label names, in the order of the things. -/
def labelled (c : Catalog) (spec : String) : List Description :=
  let parts := Text.split '.' spec
  appendNew [] ((c.things.flatMap (matchesOf spec parts)).filterMap c.describe?)

@[simp] theorem thing?_empty (uid : String) : (({} : Catalog).thing? uid) = none := rfl

@[simp] theorem channel?_empty (uid : String) : (({} : Catalog).channel? uid) = none := rfl

theorem uid_of_thing? {c : Catalog} {uid : String} {t : Thing} (h : c.thing? uid = some t) :
    t.uid = uid := by
  have := List.find?_some h
  simpa using this

theorem uid_of_channel? {c : Catalog} {uid : String} {channel : Channel}
    (h : c.channel? uid = some channel) : channel.uid = uid := by
  have := List.find?_some h
  simpa using this

end Catalog
end Domotics
