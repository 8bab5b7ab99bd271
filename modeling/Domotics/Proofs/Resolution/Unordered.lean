import Domotics.Proofs.Catalog.Alike
import Domotics.Proofs.Resolution.Grounded
import Domotics.Proofs.Resolution.Memory
import Mathlib.Data.List.Perm.Basic

/-!
A resolution does not depend on the order of registration. Over catalogs that hold the same devices the same
candidates come together, in any order; what is filtered out of them and what the tie-break leaves is the same.
-/

namespace Domotics

def only? {α : Type} : List α → Option α
  | [a] => some a
  | _ => none

theorem only?_eq_none {α : Type} {xs : List α} (h : ∀ a, xs ≠ [a]) : only? xs = none := by
  match xs, h with
  | [], _ => rfl
  | [a], h => exact absurd rfl (h a)
  | _ :: _ :: _, _ => rfl

theorem only?_eq_of_perm {α : Type} {xs ys : List α} (h : xs.Perm ys) : only? xs = only? ys := by
  match xs, ys, h.length_eq with
  | [], [], _ => rfl
  | [x], [y], _ => rw [List.singleton_perm_singleton.mp h]
  | _ :: _ :: _, _ :: _ :: _, _ => rfl

namespace Catalog

variable {c : Catalog} {found ds ds' : List Description} {d : Description}

theorem exists_mem_appendNew (h : d ∈ found ∨ d ∈ ds) : ∃ e ∈ appendNew found ds, e.ref = d.ref := by
  induction ds generalizing found with
  | nil => exact ⟨d, h.resolve_right List.not_mem_nil, rfl⟩
  | cons x rest ih =>
    rw [appendNew]
    have hkept : d ∈ found → d ∈ (if found.any (·.ref == x.ref) then found else found ++ [x]) := by
      intro hd
      split_ifs
      · exact hd
      · exact List.mem_append_left _ hd
    rcases h with hd | hd
    · exact ih (.inl (hkept hd))
    · rcases List.mem_cons.mp hd with rfl | hd
      · split_ifs with hany
        · obtain ⟨e, he, href⟩ := List.any_eq_true.mp hany
          exact ⟨e, (prefix_appendNew found rest).mem he, by simpa using href⟩
        · exact ih (.inl (List.mem_append_right _ (List.mem_singleton_self d)))
      · exact ih (.inr hd)

/-- Descriptions that are true of a catalog are told apart by their references, so none gets lost. -/
theorem mem_appendNew_nil_iff (h : c.Consistent) (hds : ∀ d ∈ ds, c.Current d) :
    d ∈ appendNew [] ds ↔ d ∈ ds := by
  refine ⟨mem_of_mem_appendNew_nil, fun hd => ?_⟩
  obtain ⟨e, he, href⟩ : ∃ e ∈ appendNew [] ds, e.ref = d.ref := exists_mem_appendNew (.inr hd)
  have hdescribe := h.describe?_of_current (hds e (mem_of_mem_appendNew_nil he))
  rw [href, h.describe?_of_current (hds d hd)] at hdescribe
  cases hdescribe
  exact he

theorem appendNew_perm (h : c.Consistent) (hds : ∀ d ∈ ds, c.Current d) (hmem : ∀ d, d ∈ ds ↔ d ∈ ds') :
    (appendNew [] ds).Perm (appendNew [] ds') := by
  have hds' : ∀ d ∈ ds', c.Current d := fun d hd => hds d ((hmem d).mpr hd)
  refine (List.perm_ext_iff_of_nodup ?_ ?_).mpr fun d => ?_
  · exact List.Nodup.of_map _ (nodup_appendNew List.nodup_nil)
  · exact List.Nodup.of_map _ (nodup_appendNew List.nodup_nil)
  · rw [mem_appendNew_nil_iff h hds, mem_appendNew_nil_iff h hds', hmem]

end Catalog

namespace Resolution

/-- The same status, the same device, and the same candidates in any order. -/
def Alike (r r' : Resolution) : Prop :=
  r.status = r'.status ∧ r.reference = r'.reference ∧ r.candidates.Perm r'.candidates

instance : DecidableRel Alike := fun _ _ => inferInstanceAs (Decidable (_ ∧ _))

def settle (chosen : Option Description) (ds : List Description) : Resolution :=
  match chosen with
  | some d => found d
  | none => ambiguous ds

variable {c c' : Catalog} {type : Option ValueType} {d : Description} {ds ds' : List Description}

theorem Alike.refl (r : Resolution) : r.Alike r := ⟨rfl, rfl, .refl _⟩

theorem alike_settle {chosen chosen' : Option Description} (hchosen : chosen = chosen') (h : ds.Perm ds') :
    (settle chosen ds).Alike (settle chosen' ds') := by
  subst hchosen
  cases chosen with
  | some d => exact .refl _
  | none => exact ⟨rfl, rfl, h⟩

/-- A tie-break takes the only candidate, the only default channel, or the only one of the pool. -/
theorem tieBreak_eq (c : Catalog) (type : Option ValueType) (ds : List Description) :
    tieBreak c type ds =
      (only? ds <|> only? ((pool c type ds).filter fun d => c.isDefault d.ref) <|> only? (pool c type ds)) := by
  rw [tieBreak.eq_def]
  split
  · rfl
  · next hmany =>
    have hnone : only? ds = none := only?_eq_none hmany
    simp only [hnone]
    split
    · next hdefault => rw [hdefault]; rfl
    · next hone hdefault => rw [only?_eq_none hdefault, hone]; rfl
    · next hdefault hone => rw [only?_eq_none hdefault, only?_eq_none hone]; rfl

theorem byLabel_eq (c : Catalog) (type : Option ValueType) (hne : ds ≠ []) :
    byLabel c type ds =
      if type = some .status then
        let things := Catalog.appendNew [] (ds.filterMap fun d => c.thingOf? d.ref)
        settle (only? things) things
      else
        let expanded := Catalog.appendNew [] (ds.flatMap (expand c))
        settle (tieBreak c type expanded) expanded := by
  rw [byLabel.eq_def]
  split
  · exact absurd rfl hne
  · split_ifs with hstatus
    · simp only
      split
      · next hone => rw [hone]; rfl
      · next hmany => rw [only?_eq_none hmany]; rfl
    · simp only
      split <;> next hchosen => rw [hchosen]; rfl

variable (h : c.SameDevices c') (hc : c.Distinct) (hc' : c'.Distinct)

include h hc hc'

theorem exact_eq (d : Description) (type : Option ValueType) : exact c d type = exact c' d type := by
  rw [exact, exact, h.thingOf?_eq hc hc']

theorem mem_expand_iff (d x : Description) : x ∈ expand c d ↔ x ∈ expand c' d := by
  rw [expand, expand]
  split_ifs with hkind
  · have hchannels : ∀ y,
        y ∈ ((c.channelsOf d.ref.id).filterMap fun channel => c.describe? ⟨.channel, channel.uid⟩) ↔
          y ∈ (c'.channelsOf d.ref.id).filterMap fun channel => c'.describe? ⟨.channel, channel.uid⟩ := by
      intro y
      simp only [List.mem_filterMap, hc.channelsOf_eq, hc'.channelsOf_eq, h.describe?_eq hc hc']
      exact h.exists_belonging_iff d.ref.id fun uid => c'.describe? ⟨.channel, uid⟩ = some y
    have hnil := List.eq_nil_iff_forall_not_mem.trans
      ((forall_congr' fun y => not_congr (hchannels y)).trans List.eq_nil_iff_forall_not_mem.symm)
    split <;> split
    · rfl
    · next hleft _ hright => exact absurd (hnil.mp hleft) hright
    · next hleft _ hright => exact absurd (hnil.mpr hright) hleft
    · exact hchannels x
  · rfl

theorem pool_perm (type : Option ValueType) (hperm : ds.Perm ds') : (pool c type ds).Perm (pool c' type ds') := by
  cases type with
  | none => exact hperm
  | some t =>
    have haccepts : ∀ d : Description, ((c.accepted? d.ref).getD []).contains t =
        ((c'.accepted? d.ref).getD []).contains t := by
      intro d
      rw [Bool.eq_iff_iff, List.contains_iff_mem, List.contains_iff_mem, h.mem_accepted?_iff hc hc']
    have hfilter := hperm.filter fun d => ((c'.accepted? d.ref).getD []).contains t
    simp only [pool, haccepts]
    split
    · next hnone =>
      rw [hnone] at hfilter
      rwa [List.nil_perm.mp hfilter]
    · next hsome =>
      split
      · next hnone =>
        rw [hnone] at hfilter
        exact absurd (List.perm_nil.mp hfilter) hsome
      · exact hfilter

theorem tieBreak_eq_of_perm (type : Option ValueType) (hperm : ds.Perm ds') :
    tieBreak c type ds = tieBreak c' type ds' := by
  have hpool := pool_perm h hc hc' type hperm
  have hdefaults := hpool.filter fun d => c'.isDefault d.ref
  simp only [tieBreak_eq, h.isDefault_eq hc hc', only?_eq_of_perm hperm, only?_eq_of_perm hpool,
    only?_eq_of_perm hdefaults]

theorem alike_byLabel (hds : ∀ d ∈ ds, c.Current d ∧ d.ref.kind ≠ .item) (hperm : ds.Perm ds') :
    (byLabel c type ds).Alike (byLabel c' type ds') := by
  by_cases hne : ds = []
  · subst hne
    rw [List.nil_perm.mp hperm]
    exact .refl _
  have hne' : ds' ≠ [] := fun hnil => hne (List.perm_nil.mp (hnil ▸ hperm))
  rw [byLabel_eq c type hne, byLabel_eq c' type hne']
  split_ifs with hstatus
  · have hthings : (Catalog.appendNew [] (ds.filterMap fun d => c.thingOf? d.ref)).Perm
        (Catalog.appendNew [] (ds'.filterMap fun d => c'.thingOf? d.ref)) := by
      refine Catalog.appendNew_perm hc.toConsistent (fun x hx => ?_) fun x => ?_
      · obtain ⟨d, hd, hthing⟩ := List.mem_filterMap.mp hx
        obtain ⟨t, ht, hcurrent, -⟩ := hc.exists_thingOf? (hds d hd).1 (hds d hd).2
        cases ht.symm.trans hthing
        exact hcurrent
      · simp only [List.mem_filterMap, hperm.mem_iff, h.thingOf?_eq hc hc']
    exact alike_settle (only?_eq_of_perm hthings) hthings
  · have hexpanded : (Catalog.appendNew [] (ds.flatMap (expand c))).Perm
        (Catalog.appendNew [] (ds'.flatMap (expand c'))) := by
      refine Catalog.appendNew_perm hc.toConsistent (fun x hx => ?_) fun x => ?_
      · obtain ⟨d, hd, hx⟩ := List.mem_flatMap.mp hx
        exact current_of_mem_expand hc.toConsistent (hds d hd).1 hx
      · simp only [List.mem_flatMap, hperm.mem_iff, mem_expand_iff h hc hc']
    exact alike_settle (tieBreak_eq_of_perm h hc hc' type hexpanded) hexpanded

theorem labelled_perm (spec : String) : (c.labelled spec).Perm (c'.labelled spec) := by
  refine Catalog.appendNew_perm hc.toConsistent (fun d hd => ?_) fun d => ?_
  · obtain ⟨r, -, hdescribe⟩ := List.mem_filterMap.mp hd
    exact hc.current_of_describe? hdescribe
  · simp only [List.mem_filterMap, h.describe?_eq hc hc', h.mem_matchesOf_iff]

theorem alike_byName (spec : String) (type : Option ValueType) :
    (byName c spec type).Alike (byName c' spec type) := by
  have hlabel : (byLabel c type (c.labelled spec)).Alike (byLabel c' type (c'.labelled spec)) :=
    alike_byLabel h hc hc' (fun d hd => current_of_mem_labelled hc.toConsistent hd)
      (labelled_perm h hc hc' spec)
  simp only [byName, h.describe?_eq hc hc', exact_eq h hc hc']
  split
  · exact .refl _
  · split
    · exact .refl _
    · split
      · exact .refl _
      · exact hlabel

end Resolution

namespace AliasRegistry

variable {a a' : AliasRegistry} {name : String} {target : AliasTarget}

def Distinct (a : AliasRegistry) : Prop := (a.bindings.map (·.1)).Nodup

def SameBindings (a a' : AliasRegistry) : Prop := SameMembers a.bindings a'.bindings

theorem distinct_empty : Distinct {} := List.nodup_nil

theorem distinct_register (h : a.Distinct) (hbind : a.register name target = .ok a') : a'.Distinct := by
  rw [register] at hbind
  split at hbind
  · cases hbind
  split at hbind
  · split at hbind <;> cases hbind
    exact h
  · next hfree =>
    split at hbind <;> cases hbind
    refine Catalog.nodup_map_append_singleton h fun bound hbound => ?_
    simp only [lookup?, Option.map_eq_none_iff] at hfree
    simpa using List.find?_eq_none.mp hfree bound hbound

theorem distinct_registerAll (h : a.Distinct) (aliases : List (String × AliasTarget)) :
    (a.registerAll aliases).1.Distinct := by
  induction aliases generalizing a with
  | nil => exact h
  | cons entry rest ih =>
    simp only [registerAll]
    cases hbind : a.register entry.1 entry.2 with
    | ok a' => exact ih (distinct_register h hbind)
    | error fault => exact h

theorem distinct_perform (h : a.Distinct) (op : Operation) : (a.perform op).Distinct := by
  cases op with
  | register name target =>
    simp only [perform]
    cases hbind : a.register name target with
    | ok a' => exact distinct_register h hbind
    | error fault => exact h
  | registerAll aliases => exact distinct_registerAll h aliases
  | freeze => exact h

theorem SameBindings.lookup?_eq (h : a.SameBindings a') (ha : a.Distinct) (ha' : a'.Distinct) (name : String) :
    a.lookup? name = a'.lookup? name := by
  have hpaired : Paired Eq a.bindings a'.bindings :=
    ⟨fun bound hbound => ⟨bound, h.1 hbound, rfl⟩, fun bound hbound => ⟨bound, h.2 hbound, rfl⟩⟩
  exact map_eq_map_of_rel (hpaired.find?_key (fun _ _ => congrArg Prod.fst) ha ha' name)
    fun _ _ => congrArg Prod.snd

end AliasRegistry

namespace Resolution

/-- The same answer: resolutions that are alike, or the same fault. -/
def SameAnswer : Result Resolution → Result Resolution → Prop
  | .ok r, .ok r' => r.Alike r'
  | .error fault, .error fault' => fault = fault'
  | _, _ => False

theorem SameAnswer.refl (answer : Result Resolution) : SameAnswer answer answer := by
  cases answer with
  | ok r => exact Alike.refl r
  | error fault => rfl

/-- Sources with the same devices and the same bindings give the same answer. -/
theorem sameAnswer_ofTarget {a a' : AliasRegistry} {c c' : Catalog} (h : c.SameDevices c') (hc : c.Distinct)
    (hc' : c'.Distinct) (hnames : ∀ name, a.lookup? name = a'.lookup? name) (spec : Document)
    (type : Option ValueType) : SameAnswer (ofTarget a c spec type) (ofTarget a' c' spec type) := by
  rw [ofTarget.eq_def, ofTarget.eq_def]
  split
  · next name =>
    rw [ofText, ofText, hnames]
    split
    · next target _ =>
      have hsame : byAlias c target type = byAlias c' target type := by
        simp only [byAlias, h.describe?_eq hc hc', exact_eq h hc hc']
      rw [hsame]
      exact .refl _
    · exact alike_byName h hc hc' name type
  · exact .refl _

end Resolution

namespace Resolver

theorem distinct_run (r : Resolver) (hc : r.catalog.Distinct) (ha : r.aliases.Distinct)
    (ops : List Operation) : (r.run ops).catalog.Distinct ∧ (r.run ops).aliases.Distinct := by
  induction ops generalizing r with
  | nil => exact ⟨hc, ha⟩
  | cons op rest ih =>
    refine ih (r.perform op) ?_ ?_
    · cases op with
      | catalog op => exact hc.perform op
      | aliases | invalidate => exact hc
      | lookup spec type => simpa only [perform, lookup_catalog] using hc
    · cases op with
      | aliases op => exact AliasRegistry.distinct_perform ha op
      | catalog | invalidate => exact ha
      | lookup spec type => simpa only [perform, lookup_aliases] using ha

/-- Two resolvers whose catalogs hold the same devices and whose aliases have the same bindings give the same
answers, in whatever order devices and aliases were registered, whatever was removed in between, and whatever
either of them remembers. -/
theorem lookup_ignores_history (ops ops' : List Operation) :
    let r := (ofSources {} {}).run ops
    let r' := (ofSources {} {}).run ops'
    r.catalog.SameDevices r'.catalog → r.aliases.SameBindings r'.aliases →
      ∀ (spec : Document) (type : Option ValueType),
        Resolution.SameAnswer (r.lookup spec type).2 (r'.lookup spec type).2 := by
  intro r r' hdevices hbindings spec type
  have hdistinct := distinct_run (ofSources {} {}) Catalog.distinct_empty AliasRegistry.distinct_empty
  obtain ⟨hc, ha⟩ := hdistinct ops
  obtain ⟨hc', ha'⟩ := hdistinct ops'
  rw [lookup_run_eq_ofTarget, lookup_run_eq_ofTarget]
  exact Resolution.sameAnswer_ofTarget hdevices hc hc' (hbindings.lookup?_eq ha ha') spec type

/-- Two lamps of one label, registered in this order. Only the one in the hall can be dimmed. -/
def hallFirst : List Operation :=
  [.catalog (.addThing "hall" (some "Lamp") (some "Hall") none),
    .catalog (.addChannel "hall" "power" [.onOff] false),
    .catalog (.addChannel "hall" "level" [.percent, .onOff] false),
    .catalog (.addThing "attic" (some "Lamp") (some "Attic") none),
    .catalog (.addChannel "attic" "power" [.onOff] false),
    .catalog (.addItem "Scene" [.text] none),
    .aliases (.register "top" ⟨.thing, .text "attic"⟩),
    .aliases (.register "switch" ⟨.channel, .text "hall:power"⟩)]

/-- The same two lamps the other way round. The one in the hall is removed once and comes back with its channels
in another order. -/
def atticFirst : List Operation :=
  [.catalog (.addThing "hall" (some "Light") none none),
    .catalog (.addItem "Scene" [.text] none),
    .catalog (.addThing "attic" (some "Lamp") (some "Attic") none),
    .catalog (.addChannel "attic" "power" [.onOff] false),
    .aliases (.registerAll [("switch", ⟨.channel, .text "hall:power"⟩), ("top", ⟨.thing, .text "attic"⟩)]),
    .lookup (.text "Lamp") none,
    .catalog (.removeThing "hall"),
    .catalog (.addThing "hall" (some "Lamp") (some "Hall") none),
    .catalog (.addChannel "hall" "level" [.onOff, .percent] false),
    .catalog (.addChannel "hall" "power" [.onOff] false)]

theorem lookup_ignores_history_lamps :
    let r := (ofSources {} {}).run hallFirst
    let r' := (ofSources {} {}).run atticFirst
    let lamp (r : Resolver) (type : ValueType) : Result Resolution := (r.lookup (.text "Lamp") (some type)).2
    let candidates (r : Resolver) (type : ValueType) : List String :=
      ((lamp r type).toOption.map fun found => found.candidates.map (·.ref.id)).getD []
    r.catalog.SameDevices r'.catalog ∧ r.aliases.SameBindings r'.aliases ∧
      Resolution.SameAnswer (lamp r .percent) (lamp r' .percent) ∧ candidates r .percent = [] ∧
      Resolution.SameAnswer (lamp r .onOff) (lamp r' .onOff) ∧
      candidates r .onOff = ["hall:power", "hall:level", "attic:power"] ∧
      candidates r' .onOff = ["attic:power", "hall:level", "hall:power"] := by
  intro r r' lamp candidates
  have hdevices : r.catalog.SameDevices r'.catalog := by decide +kernel
  have hbindings : r.aliases.SameBindings r'.aliases := by
    let top : String × AliasTarget := ("top", ⟨.thing, .text "attic"⟩)
    let switch : String × AliasTarget := ("switch", ⟨.channel, .text "hall:power"⟩)
    have hswap : [top, switch].Perm [switch, top] := .swap ..
    exact ⟨hswap.subset, hswap.symm.subset⟩
  have halike := lookup_ignores_history hallFirst atticFirst hdevices hbindings (.text "Lamp")
  exact ⟨hdevices, hbindings, halike (some .percent), by decide +kernel, halike (some .onOff), by decide +kernel,
    by decide +kernel⟩

end Resolver
end Domotics
