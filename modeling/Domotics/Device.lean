import Domotics.Value

/-!
Devices: items, things and the channels of things, and the references by which they are known.
-/

namespace Domotics

inductive DeviceKind where
  | item | thing | channel
deriving DecidableEq, Inhabited, Repr

def DeviceKind.name : DeviceKind → String
  | item => "item"
  | thing => "thing"
  | channel => "channel"

def DeviceKind.ofName? (s : String) : Option DeviceKind :=
  [DeviceKind.item, .thing, .channel].find? (·.name == s)

/-- A reference to a device: its kind with the name of an item or the identifier of a thing or a
channel. -/
structure Reference where
  kind : DeviceKind
  id : String
deriving DecidableEq, Inhabited, Repr

def Reference.text (r : Reference) : String := r.kind.name ++ ":" ++ r.id

/-- A registered device with the location and the label of its thing. -/
structure Description where
  ref : Reference
  location : Option String := none
  label : Option String := none
deriving DecidableEq, Inhabited, Repr

structure Thing where
  uid : String
  label : Option String := none
  location : Option String := none
  type : Option String := none
  channels : List String := []
deriving DecidableEq, Inhabited, Repr

/-- A channel of a thing. A thing may have default channels, which are preferred when its label alone
is used. -/
structure Channel where
  uid : String
  thing : String
  name : String
  accepts : List ValueType
  isDefault : Bool := false
deriving DecidableEq, Inhabited, Repr

structure Item where
  name : String
  accepts : List ValueType
  channel : Option String := none
deriving DecidableEq, Inhabited, Repr

end Domotics
