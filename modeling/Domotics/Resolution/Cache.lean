import Domotics.Resolution

/-!
A memory of earlier resolutions. It is dropped when the aliases or the catalog have another version
than when it was last used.
-/

namespace Domotics

/-- Resolutions by text and type, with the versions of the aliases and the catalog they belong to. -/
structure ResolutionCache where
  entries : List ((String × Option ValueType) × Resolution) := []
  versions : Nat × Nat := (0, 0)
deriving Inhabited, Repr

namespace ResolutionCache

def versionsOf (aliases : AliasRegistry) (c : Catalog) : Nat × Nat := (aliases.version, c.version)

def fresh (aliases : AliasRegistry) (c : Catalog) : ResolutionCache :=
  { versions := versionsOf aliases c }

/-- The memory as far as it is still valid. -/
def validate (m : ResolutionCache) (aliases : AliasRegistry) (c : Catalog) : ResolutionCache :=
  if m.versions = versionsOf aliases c then m else fresh aliases c

def remembered? (m : ResolutionCache) (spec : String) (type : Option ValueType) : Option Resolution :=
  (m.entries.find? (·.1 == (spec, type))).map (·.2)

def lookup (m : ResolutionCache) (aliases : AliasRegistry) (c : Catalog) (spec : String)
    (type : Option ValueType) : ResolutionCache × Result Resolution :=
  let m := m.validate aliases c
  match m.remembered? spec type with
  | some r => (m, .ok r)
  | none =>
    match Resolution.ofText aliases c spec type with
    | .ok r => ({ m with entries := ((spec, type), r) :: m.entries }, .ok r)
    | .error fault => (m, .error fault)

end ResolutionCache

/-- A catalog and aliases with a memory of what was resolved by them. -/
structure Resolver where
  catalog : Catalog := {}
  aliases : AliasRegistry := {}
  cache : ResolutionCache := {}
deriving Inhabited

namespace Resolver

/-- Resolves a target. Only texts are remembered. -/
def lookup (r : Resolver) (spec : Document) (type : Option ValueType) :
    Resolver × Result Resolution :=
  match spec with
  | .text s =>
    let (cache, found) := r.cache.lookup r.aliases r.catalog s type
    ({ r with cache }, found)
  | d => (r, Resolution.ofTarget r.aliases r.catalog d type)

def invalidate (r : Resolver) : Resolver := { r with cache := .fresh r.aliases r.catalog }

@[simp] theorem lookup_catalog (r : Resolver) (spec : Document) (type : Option ValueType) :
    (r.lookup spec type).1.catalog = r.catalog := by
  unfold lookup; split <;> rfl

@[simp] theorem lookup_aliases (r : Resolver) (spec : Document) (type : Option ValueType) :
    (r.lookup spec type).1.aliases = r.aliases := by
  unfold lookup; split <;> rfl

end Resolver
end Domotics
