import Domotics.Fault

/-!
The words in which faults are reported.
-/

namespace Domotics

def Document.kindName (d : Document) : String := d.kind.name

def Value.kindName : Value → String
  | .onOff _ => "OnOffType"
  | .openClosed _ => "OpenClosedType"
  | .status _ => "ThingStatus"
  | .quantity _ _ => "Quantity"
  | .plain d => d.kindName

def ScheduleFault.message : ScheduleFault → String
  | baseMissing => "A time bound needs exactly one of clock or anchor"
  | outsideDay b => s!"Time bound {b.text} falls outside its day; split the range at midnight"
  | crossesMidnight start finish =>
    s!"Time range {start.text}..{finish.text} crosses midnight; split it into same-day ranges"
  | noDays => "A schedule entry needs at least one day"
  | militaryTime value => s!"Invalid military time: {value}"
  | offset raw => s!"Invalid offset in {raw.literal}"
  | time raw => s!"Invalid time: {raw.literal}"
  | dayNumber n => s!"Invalid day number: {n}"
  | dayName name => s!"Unknown day: {Document.quote name}"
  | tailTooLong d => s!"Range end {d.text} after midnight spans more than a day"
  | entryShape raw => s!"Schedule entry must be a dict: {raw.literal}"
  | entryDays raw => s!"Schedule entry without days: {raw.asText}"
  | spanShape raw => s!"A time range needs a start and an end: {raw.asText}"

def InvalidFault.message : InvalidFault → String
  | notMember raw family => s!"{raw.literal} is not a valid {family}"
  | unsupported raw => s!"Unsupported value: {raw.literal}"
  | unparsable raw type => s!"Cannot parse {raw.literal} as {type.name}"
  | integer digits =>
    "invalid literal for int() with base 10: "
      ++ String.ofList ((Document.quote digits).toList.take 200)
  | integerLength count =>
    "Exceeds the limit (4300 digits) for integer string conversion: value has " ++ toString count
      ++ " digits; use sys.set_int_max_str_digits() to increase the limit"
  | notANumber => "cannot convert float NaN to integer"
  | emptyThing => "Thing UID must not be empty"
  | deviceExists uid => s!"Device with uid '{uid}' already exists"
  | noThing uid => s!"Thing '{uid}' does not exist"
  | channelExists uid => s!"Channel '{uid}' already exists"
  | emptyItem => "Item name must not be empty"
  | itemExists name => s!"Item '{name}' already exists"
  | noChannel uid => s!"Channel '{uid}' does not exist"
  | duration raw => s!"Invalid duration: {raw.literal}"
  | emptyTarget => "Predicate target must not be empty"
  | needsValue kind target => s!"{kind} predicate on '{target.asText}' needs a value"
  | needsFrom target => s!"goes_from predicate on '{target.asText}' needs a from value"
  | interval => "Retrigger interval must be positive"
  | emptyRuleName => "Rule name must not be empty"
  | ruleCooldown name => s!"Rule '{name.asText}': dont_retrigger_within must be >= 0"
  | cooldown => "dont_retrigger_within must be >= 0"
  | ruleShape raw => s!"Rule config must be a dict: {raw.literal}"
  | ruleName raw => s!"Rule config needs 'name': {raw.literal}"
  | unknownAction name => s!"Unknown action: {name.asText}"
  | expressionShape raw => s!"Expression must be a single-key dict: {raw.literal}"
  | expressionList kind raw => s!"'{kind}' needs a list of expressions: {raw.literal}"
  | timeShape raw => s!"'time' needs a dict with after/before: {raw.literal}"
  | unknownExpression kind => s!"Unknown expression type: {kind}"
  | predicateShape kind raw => s!"'{kind}' needs a dict with a target: {raw.literal}"
  | missingKey context key raw => s!"'{context}' needs '{key}': {raw.literal}"
  | retriggerDay raw => s!"Retrigger needs a single day: {raw.literal}"
  | retriggerShape raw => s!"Unknown retrigger spec: {raw.literal}"
  | aliasShape name => s!"Alias '{name}' needs exactly one of item/thing/channel"
  | aliasKind name kind => s!"Unknown alias kind for '{name}': {kind}"
  | emptyAlias => "Alias must not be empty"
  | duplicateRule name => s!"Duplicate rule name: {name.asText}"
  | emptyActionName => "Action name must not be empty"
  | noOccurrence b after => s!"No occurrence of {b.text} after {after.text}"
  | template reason => reason

def SetupFault.message : SetupFault → String
  | rejected cause => cause.message
  | channelTypes label => s!"Test channel '{label}' needs at least one value type"
  | itemTypes name => s!"Test item '{name}' needs at least one value type"
  | channelUid uid => s!"Malformed channel UID: {Document.quote uid}"
  | notStatus v => s!"Not a thing status: {v.literal}"
  | negativeDelay seconds => s!"Delay must be >= 0, got {seconds.asText}"
  | target spec status => s!"Test target '{spec.asText}' is {status.name}"
  | unknownRule name => s!"Unknown rule: {name.asText}"

def ClockFault.message : ClockFault → String
  | noOffset => "Virtual clock start time must be timezone-aware"
  | backwards now requested =>
    s!"Virtual clock cannot go back from {now.text} to {requested.text}"
  | stuck m => s!"Periodic retrigger did not advance past {m.text}"

def RefusedFault.message : RefusedFault → String
  | frozen name => s!"Alias registry is frozen, cannot register '{name}'"
  | action message => message

def MisuseFault.message : MisuseFault → String
  | notIterable raw => s!"'{raw.kindName}' object is not iterable"
  | noLength raw => s!"object of type '{raw.kindName}' has no len()"
  | noContainment raw => s!"argument of type '{raw.kindName}' is not iterable"
  | notIndexed kind =>
    match kind with
    | .list | .group => s!"{kind.name} indices must be integers or slices, not str"
    | .text => "string indices must be integers, not 'str'"
    | _ => s!"'{kind.name}' object is not subscriptable"
  | kindNotIndexed k => s!"type '{k.name}' is not subscriptable"
  | unhashable raw => s!"unhashable type: '{raw.kindName}'"
  | notOrdered raw => s!"'<' not supported between instances of '{raw.kindName}' and 'int'"
  | notAdded raw =>
    match raw with
    | .text _ => "can only concatenate str (not \"int\") to str"
    | .list _ => "can only concatenate list (not \"int\") to list"
    | _ => s!"unsupported operand type(s) for +: '{raw.kindName}' and 'int'"
  | noAttribute kind name => s!"'{kind.name}' object has no attribute '{name}'"
  | kindHasNoAttribute k name => s!"type object '{k.name}' has no attribute '{name}'"
  | valueHasNoAttribute v name => s!"'{v.kindName}' object has no attribute '{name}'"
  | noEngine name => s!"'NoneType' object has no attribute '{name}'"
  | noKey key => Document.quote key
  | noPosition index => s!"Replacement index {index} out of range for positional args tuple"
  | noItem kind =>
    match kind with
    | .text => "string index out of range"
    | _ => s!"{kind.name} index out of range"
  | notFormatted kind => s!"unsupported format string passed to {kind.name}.__format__"
  | mixedOffsets difference =>
    if difference then "can't subtract offset-naive and offset-aware datetimes"
    else "can't compare offset-naive and offset-aware datetimes"
  | dateRange => "date value out of range"
  | durationRange days => s!"days={days}; must have magnitude <= 999999999"
  | realRange => "int too large to convert to float"
  | infiniteReal => "cannot convert float infinity to integer"
  | wordRange => "Python int too large to convert to C long"
  | characterRange => "%c arg not in range(0x110000)"

def Fault.message : Fault → String
  | aliasConflict name bound requested =>
    s!"Alias '{name}' already refers to {bound.kind.name} '{bound.id.asText}', "
      ++ s!"cannot rebind to {requested.kind.name} '{requested.id.asText}'"
  | unresolved spec status => s!"Cannot resolve '{spec.asText}': {status.name}"
  | typeMismatch spec requested accepted =>
    let names := ", ".intercalate ((ValueType.sorted accepted).map ValueType.name)
    let names := if names = "" then "nothing" else names
    let requested := match requested with
      | some t => t.name
      | none => "none"
    s!"'{spec.asText}' accepts {names}, not {requested}"
  | schedule cause => cause.message
  | invalid cause => cause.message
  | setup cause => cause.message
  | clock cause => cause.message
  | refused cause => cause.message
  | misuse cause => cause.message

end Domotics
