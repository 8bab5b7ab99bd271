import Domotics.Resolution
import Mathlib.Tactic.SplitIfs

/-!
What a resolution reads: a catalog and the aliases. Every operation on one of them either leaves what
can be read as it was or raises the version, also an operation that stops halfway.
-/

namespace Domotics

namespace Catalog

inductive Operation where
  | addThing (uid : String) (label location type : Option String)
  | addChannel (thing name : String) (accepts : List ValueType) (isDefault : Bool)
  | addItem (name : String) (accepts : List ValueType) (channel : Option String)
  | removeThing (uid : String)
deriving Repr

def after {α : Type} (c : Catalog) : Result (α × Catalog) → Catalog
  | .ok (_, c') => c'
  | .error _ => c

def perform (c : Catalog) : Operation → Catalog
  | .addThing uid label location type => c.after (c.addThing uid label location type)
  | .addChannel thing name accepts isDefault => c.after (c.addChannel thing name accepts isDefault)
  | .addItem name accepts channel => c.after (c.addItem name accepts channel)
  | .removeThing uid => (c.removeThing uid).2

theorem version_of_addThing {c c' : Catalog} {uid : String} {label location type : Option String}
    {t : Thing} (h : c.addThing uid label location type = .ok (t, c')) :
    c'.version = c.version + 1 := by
  simp only [addThing] at h
  split_ifs at h
  cases h
  rfl

theorem version_of_addChannel {c c' : Catalog} {thing name : String} {accepts : List ValueType}
    {isDefault : Bool} {channel : Channel}
    (h : c.addChannel thing name accepts isDefault = .ok (channel, c')) :
    c'.version = c.version + 1 := by
  simp only [addChannel] at h
  split_ifs at h
  cases h
  rfl

theorem version_of_addItem {c c' : Catalog} {name : String} {accepts : List ValueType}
    {channel : Option String} {item : Item} (h : c.addItem name accepts channel = .ok (item, c')) :
    c'.version = c.version + 1 := by
  simp only [addItem] at h
  split_ifs at h
  split at h
  · cases h
  · cases h
    rfl

theorem removeThing_eq_or_version (c : Catalog) (uid : String) :
    (c.removeThing uid).2 = c ∨ (c.removeThing uid).2.version = c.version + 1 := by
  unfold removeThing
  split
  · exact Or.inl rfl
  · exact Or.inr rfl

theorem after_eq_or_version_lt {α : Type} (c : Catalog) (r : Result (α × Catalog))
    (h : ∀ a c', r = .ok (a, c') → c'.version = c.version + 1) :
    c.after r = c ∨ c.version < (c.after r).version := by
  match r with
  | .error _ => exact Or.inl rfl
  | .ok (a, c') =>
    have hv : c'.version = c.version + 1 := h a c' rfl
    right
    simp only [after]
    omega

/-- No operation changes a catalog without raising its version. -/
theorem perform_eq_or_version_lt (c : Catalog) (op : Operation) :
    c.perform op = c ∨ c.version < (c.perform op).version := by
  cases op with
  | addThing uid label location type =>
    exact after_eq_or_version_lt c _ fun _ _ h => version_of_addThing h
  | addChannel thing name accepts isDefault =>
    exact after_eq_or_version_lt c _ fun _ _ h => version_of_addChannel h
  | addItem name accepts channel =>
    exact after_eq_or_version_lt c _ fun _ _ h => version_of_addItem h
  | removeThing uid =>
    rcases removeThing_eq_or_version c uid with h | h
    · exact Or.inl h
    · right
      simp only [perform]
      omega

end Catalog

namespace AliasRegistry

inductive Operation where
  | register (name : String) (target : AliasTarget)
  | registerAll (aliases : List (String × AliasTarget))
  | freeze
deriving Repr

/-- Performs an operation. A name that cannot be bound leaves the registry as it is; several names
stay bound up to the first that cannot be. -/
def perform (r : AliasRegistry) : Operation → AliasRegistry
  | .register name target => match r.register name target with
    | .ok r' => r'
    | .error _ => r
  | .registerAll aliases => (r.registerAll aliases).1
  | .freeze => r.freeze

/-- The registry `s` comes after `r`: either nothing that can be looked up has changed, or the
version has grown. -/
def Grows (r s : AliasRegistry) : Prop :=
  s.bindings = r.bindings ∧ s.version = r.version ∨ r.version < s.version

theorem Grows.refl (r : AliasRegistry) : r.Grows r := Or.inl ⟨rfl, rfl⟩

theorem Grows.trans {r s t : AliasRegistry} (h₁ : r.Grows s) (h₂ : s.Grows t) : r.Grows t := by
  rcases h₁ with ⟨hb, hv⟩ | hv
  · rcases h₂ with ⟨hb', hv'⟩ | hv'
    · exact Or.inl ⟨hb'.trans hb, hv'.trans hv⟩
    · exact Or.inr (by omega)
  · rcases h₂ with ⟨_, hv'⟩ | hv'
    · exact Or.inr (by omega)
    · exact Or.inr (by omega)

theorem grows_of_register {r r' : AliasRegistry} {name : String} {target : AliasTarget}
    (h : r.register name target = .ok r') : r.Grows r' := by
  simp only [register] at h
  split at h
  · cases h
  · split at h
    · split at h
      · cases h
        exact Grows.refl r
      · cases h
    · split at h
      · cases h
      · cases h
        exact Or.inr (Nat.lt_succ_self _)

/-- Binding several names raises the version even if it stops at one that cannot be bound. -/
theorem grows_registerAll (r : AliasRegistry) (aliases : List (String × AliasTarget)) :
    r.Grows (r.registerAll aliases).1 := by
  induction aliases generalizing r with
  | nil => exact Grows.refl r
  | cons a rest ih =>
    simp only [registerAll]
    cases h : r.register a.1 a.2 with
    | ok r' => exact (grows_of_register h).trans (ih r')
    | error fault => exact Grows.refl r

theorem grows_perform (r : AliasRegistry) (op : Operation) : r.Grows (r.perform op) := by
  cases op with
  | register name target =>
    simp only [perform]
    cases h : r.register name target with
    | ok r' => exact grows_of_register h
    | error fault => exact Grows.refl r
  | registerAll aliases => exact grows_registerAll r aliases
  | freeze => exact Or.inl ⟨rfl, rfl⟩

end AliasRegistry

namespace Resolution

/-- Only the bindings of a registry matter to a resolution. -/
theorem ofText_congr {a b : AliasRegistry} (h : a.bindings = b.bindings) (c : Catalog)
    (spec : String) (type : Option ValueType) : ofText a c spec type = ofText b c spec type := by
  simp only [ofText, AliasRegistry.lookup?, h]

end Resolution
end Domotics
