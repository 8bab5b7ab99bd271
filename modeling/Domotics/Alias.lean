import Domotics.Fault

/-!
Aliases: short names for devices. A name stands for one device; binding it again to the same device
changes nothing. Once frozen, a registry takes no new names.
-/

namespace Domotics

/-- Names with their targets in the order in which they were bound. The version grows with every new
name. -/
structure AliasRegistry where
  bindings : List (String × AliasTarget) := []
  frozen : Bool := false
  version : Nat := 0
deriving Inhabited, Repr

namespace AliasRegistry

def lookup? (r : AliasRegistry) (name : String) : Option AliasTarget :=
  (r.bindings.find? (·.1 == name)).map (·.2)

def register (r : AliasRegistry) (name : String) (target : AliasTarget) : Result AliasRegistry :=
  if name = "" then Result.invalid .emptyAlias
  else match r.lookup? name with
    | some bound =>
      if bound.agrees target then .ok r else .error (.aliasConflict name bound target)
    | none =>
      if r.frozen then .error (.refused (.frozen name))
      else .ok { r with bindings := r.bindings ++ [(name, target)], version := r.version + 1 }

/-- Binds several names and stops at the first that cannot be bound. The names before it stay. -/
def registerAll (r : AliasRegistry) :
    List (String × AliasTarget) → AliasRegistry × Result Unit
  | [] => (r, .ok ())
  | (name, target) :: rest =>
    match r.register name target with
    | .ok r => registerAll r rest
    | .error fault => (r, .error fault)

def namesOf (r : AliasRegistry) (target : AliasTarget) : List String :=
  (r.bindings.filter (·.2.agrees target)).map (·.1)

def freeze (r : AliasRegistry) : AliasRegistry := { r with frozen := true }

@[simp] theorem lookup?_empty (name : String) : ({} : AliasRegistry).lookup? name = none := rfl

@[simp] theorem lookup?_freeze (r : AliasRegistry) (name : String) :
    r.freeze.lookup? name = r.lookup? name := rfl

end AliasRegistry

namespace AliasTarget

/-- Reads one declaration, an object whose only key is the kind of the device. -/
def parse (name : String) (raw : Document) : Result AliasTarget :=
  match raw with
  | .object [(kind, id)] =>
    match DeviceKind.ofName? kind with
    | some kind => .ok ⟨kind, id⟩
    | none => Result.invalid (.aliasKind name kind)
  | _ => Result.invalid (.aliasShape name)

def parseEntries : List (String × Document) → Result (List (String × AliasTarget))
  | [] => .ok []
  | (name, raw) :: rest => do
    let target ← parse name raw
    let others ← parseEntries rest
    return (name, target) :: others

def parseAll (data : Document) : Result (List (String × AliasTarget)) :=
  match data with
  | .object entries => parseEntries entries
  | d => Result.misuse (.noAttribute d.kind "items")

end AliasTarget
end Domotics
