import Domotics.Proofs.Resolution.Sources
import Domotics.Resolution.Cache

/-!
The memory of a resolver is never seen. However operations on the catalog and on the aliases, lookups
and invalidations follow each other, a lookup answers what a resolution without a memory answers at
that point.
-/

namespace Domotics.Resolver

/-- An operation on a resolver or on one of the sources that it reads. -/
inductive Operation where
  | catalog (op : Catalog.Operation)
  | aliases (op : AliasRegistry.Operation)
  | lookup (spec : Document) (type : Option ValueType)
  | invalidate
deriving Repr

def ofSources (c : Catalog) (a : AliasRegistry) : Resolver :=
  { catalog := c, aliases := a, cache := .fresh a c }

def perform (r : Resolver) : Operation → Resolver
  | .catalog op => { r with catalog := r.catalog.perform op }
  | .aliases op => { r with aliases := r.aliases.perform op }
  | .lookup spec type => (r.lookup spec type).1
  | .invalidate => r.invalidate

def run (r : Resolver) (ops : List Operation) : Resolver := ops.foldl perform r

/-- The memory is not newer than the sources, and as long as it has their versions it holds what they
resolve to. -/
structure Coherent (r : Resolver) : Prop where
  aliases_le : r.cache.versions.1 ≤ r.aliases.version
  catalog_le : r.cache.versions.2 ≤ r.catalog.version
  sound : r.cache.versions = ResolutionCache.versionsOf r.aliases r.catalog →
    ∀ entry ∈ r.cache.entries,
      Resolution.ofText r.aliases r.catalog entry.1.1 entry.1.2 = .ok entry.2

theorem coherent_of_fresh (c : Catalog) (a : AliasRegistry) : Coherent (ofSources c a) where
  aliases_le := Nat.le_refl _
  catalog_le := Nat.le_refl _
  sound _ entry hentry := by cases hentry

/-- Sources that have grown either read the same or have left the memory behind. -/
theorem Coherent.grow {r : Resolver} (h : r.Coherent) {a : AliasRegistry} {c : Catalog}
    (ha : r.aliases.Grows a) (hc : c = r.catalog ∨ r.catalog.version < c.version) :
    Coherent { r with aliases := a, catalog := c } := by
  have hal := h.aliases_le
  have hcl := h.catalog_le
  constructor
  · show r.cache.versions.1 ≤ a.version
    rcases ha with ⟨_, hv⟩ | hv <;> omega
  · show r.cache.versions.2 ≤ c.version
    rcases hc with rfl | hv <;> omega
  · intro hversions entry hentry
    have hav : r.cache.versions.1 = a.version := congrArg Prod.fst hversions
    have hcv : r.cache.versions.2 = c.version := congrArg Prod.snd hversions
    rcases ha with ⟨hb, hv⟩ | hv
    · rcases hc with rfl | hv'
      · have hold := h.sound (Prod.ext (hav.trans hv) hcv) entry hentry
        rwa [Resolution.ofText_congr hb]
      · omega
    · omega

theorem Coherent.invalidate (r : Resolver) : Coherent r.invalidate :=
  coherent_of_fresh r.catalog r.aliases

theorem Coherent.validate {r : Resolver} (h : r.Coherent) :
    let m := r.cache.validate r.aliases r.catalog
    m.versions = ResolutionCache.versionsOf r.aliases r.catalog ∧
      ∀ entry ∈ m.entries,
        Resolution.ofText r.aliases r.catalog entry.1.1 entry.1.2 = .ok entry.2 := by
  simp only [ResolutionCache.validate]
  split_ifs with hversions
  · exact ⟨hversions, h.sound hversions⟩
  · exact ⟨rfl, fun entry hentry => by cases hentry⟩

theorem mem_of_remembered? {m : ResolutionCache} {spec : String} {type : Option ValueType}
    {found : Resolution} (h : m.remembered? spec type = some found) :
    ((spec, type), found) ∈ m.entries := by
  obtain ⟨entry, hfind, rfl⟩ := Option.map_eq_some_iff.mp h
  have hkey : entry.1 = (spec, type) := by simpa using List.find?_some hfind
  have hmem := List.mem_of_find?_eq_some hfind
  rwa [← hkey]

theorem Coherent.lookupText {r : Resolver} (h : r.Coherent) (spec : String)
    (type : Option ValueType) :
    Coherent (r.lookup (.text spec) type).1 ∧
      (r.lookup (.text spec) type).2 = Resolution.ofText r.aliases r.catalog spec type := by
  obtain ⟨hversions, hsound⟩ := h.validate
  have hkept : ∀ entries : List ((String × Option ValueType) × Resolution),
      (∀ entry ∈ entries,
        Resolution.ofText r.aliases r.catalog entry.1.1 entry.1.2 = .ok entry.2) →
      Coherent { r with cache := { r.cache.validate r.aliases r.catalog with entries } } := by
    intro entries hentries
    exact ⟨Nat.le_of_eq (congrArg Prod.fst hversions),
      Nat.le_of_eq (congrArg Prod.snd hversions), fun _ => hentries⟩
  simp only [lookup, ResolutionCache.lookup]
  cases hm : (r.cache.validate r.aliases r.catalog).remembered? spec type with
  | some found => exact ⟨hkept _ hsound, (hsound _ (mem_of_remembered? hm)).symm⟩
  | none =>
    cases hf : Resolution.ofText r.aliases r.catalog spec type with
    | error fault => exact ⟨hkept _ hsound, rfl⟩
    | ok found =>
      refine ⟨hkept _ ?_, rfl⟩
      intro entry hentry
      rcases List.mem_cons.mp hentry with rfl | hentry
      · exact hf
      · exact hsound entry hentry

theorem Coherent.lookup {r : Resolver} (h : r.Coherent) (spec : Document)
    (type : Option ValueType) :
    Coherent (r.lookup spec type).1 ∧
      (r.lookup spec type).2 = Resolution.ofTarget r.aliases r.catalog spec type := by
  cases spec with
  | text s => exact h.lookupText s type
  | null | bool | number | list | object => exact ⟨h, rfl⟩

/-- One operation keeps a memory coherent. -/
theorem Coherent.perform {r : Resolver} (h : r.Coherent) (op : Operation) :
    Coherent (r.perform op) := by
  cases op with
  | catalog op => exact h.grow (.refl _) (r.catalog.perform_eq_or_version_lt op)
  | aliases op => exact h.grow (r.aliases.grows_perform op) (Or.inl rfl)
  | lookup spec type => exact (h.lookup spec type).1
  | invalidate => exact .invalidate r

theorem Coherent.run {r : Resolver} (h : r.Coherent) (ops : List Operation) :
    Coherent (r.run ops) := by
  induction ops generalizing r with
  | nil => exact h
  | cons op ops ih => exact ih (h.perform op)

/-- After any operations a lookup answers what the sources resolve to at that point: the status, the
device with its location and label, and the candidates in order. -/
theorem lookup_run_eq_ofTarget (c : Catalog) (a : AliasRegistry) (ops : List Operation)
    (spec : Document) (type : Option ValueType) :
    (((ofSources c a).run ops).lookup spec type).2 =
      Resolution.ofTarget ((ofSources c a).run ops).aliases ((ofSources c a).run ops).catalog
        spec type :=
  (((coherent_of_fresh c a).run ops).lookup spec type).2

end Domotics.Resolver
