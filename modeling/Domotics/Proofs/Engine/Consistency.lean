import Domotics.Proofs.Engine.Agreement
import Domotics.Proofs.Engine.Loadable

/-!
Which rule sets can be loaded, said without an order. Aliases are bound one after the other, and each is compared with
the first one of its name only; but agreement is an equivalence, so the set is taken if no name is declared for two
devices anywhere in it. What the names stand for then is what has been declared, in whatever order.
-/

namespace Domotics

namespace AliasRegistry

variable {r bound : AliasRegistry} {earlier bindings : List (String × AliasTarget)}

theorem Knows.registerAll (h : r.Knows earlier) (hall : r.registerAll bindings = (bound, .ok ())) :
    bound.Knows (earlier ++ bindings) := by
  induction bindings generalizing r earlier with
  | nil =>
    cases hall
    rwa [List.append_nil]
  | cons b rest ih =>
    rw [AliasRegistry.registerAll] at hall
    cases hnext : r.register b.1 b.2 with
    | error fault => simp [hnext] at hall
    | ok next =>
      simp only [hnext] at hall
      simpa using ih (h.register hnext) hall

/-- Each of the bindings agrees with the first one of its name. -/
theorem Fits.exists_first (h : Fits [] bindings) (hids : ∀ b ∈ bindings, b.2.id.WellFormed)
    {b : String × AliasTarget} (hb : b ∈ bindings) :
    ∃ first, bindings.find? (·.1 == b.1) = some first ∧ first.2.agrees b.2 = true := by
  obtain ⟨before, after, rfl⟩ := List.append_of_mem hb
  cases hfind : before.find? (·.1 == b.1) with
  | none => exact ⟨b, by simp [List.find?_append, hfind], AliasTarget.agrees_self (hids b hb)⟩
  | some first => exact ⟨first, by simp [List.find?_append, hfind], h.agree before b after rfl first hfind⟩

theorem fits_nil_iff (hids : ∀ b ∈ bindings, b.2.id.WellFormed) : Fits [] bindings ↔
    (∀ b ∈ bindings, b.1 ≠ "") ∧ ∀ b ∈ bindings, ∀ other ∈ bindings, b.1 = other.1 →
      b.2.agrees other.2 = true := by
  constructor
  · intro h
    refine ⟨h.named, fun b hb other hother hname => ?_⟩
    obtain ⟨first, hfirst, hagree⟩ := h.exists_first hids hb
    obtain ⟨same, hsame, hagree'⟩ := h.exists_first hids hother
    rw [← hname, hfirst] at hsame
    cases hsame
    have hback : b.2.agrees first.2 = true :=
      AliasTarget.agrees_symm (hids first (List.mem_of_find?_eq_some hfirst)) hagree
    exact AliasTarget.agrees_trans (hids b hb) hback hagree'
  · rintro ⟨hnamed, hsingle⟩
    refine ⟨hnamed, fun before b after hsplit first hfirst => ?_⟩
    have hmem : first ∈ before := List.mem_of_find?_eq_some hfirst
    have hname : first.1 = b.1 := by simpa using List.find?_some hfirst
    exact hsingle first (by simp [hsplit, hmem]) b (by simp [hsplit]) hname

end AliasRegistry

/-- A rule that has a text as its name and no periodic fires. -/
structure Rule.Plain (r : Rule) : Prop where
  name : ∃ s, r.name = .text s
  periodic : r.periodic = []

namespace RuleSet

def Declares (rs : RuleSet) (name : String) (target : AliasTarget) : Prop :=
  (name, target) ∈ rs.aliases ∨ ∃ r ∈ rs.rules, (name, target) ∈ r.aliases

/-- A set of such rules whose aliases stand for devices with identifiers that can be written. -/
structure Plain (rs : RuleSet) : Prop where
  rules : ∀ r ∈ rs.rules, r.Plain
  ids : ∀ name target, rs.Declares name target → target.id.WellFormed

/-- Every alias has a name and stands for one device, and no two rules share a name. -/
structure Consistent (rs : RuleSet) : Prop where
  named : ∀ name target, rs.Declares name target → name ≠ ""
  single : ∀ name target other, rs.Declares name target → rs.Declares name other → target.agrees other = true
  distinct : (rs.rules.map (·.name)).Nodup

/-- A registry that takes no more names and knows what is declared and nothing else. -/
structure Registered (rs : RuleSet) (r : AliasRegistry) : Prop where
  frozen : r.frozen = true
  declared : ∀ name target, rs.Declares name target →
    ∃ bound, r.lookup? name = some bound ∧ bound.agrees target = true
  nothingElse : ∀ name bound, r.lookup? name = some bound → rs.Declares name bound

/-- The same declarations and the same names of rules in any order. -/
structure Rearranges (rs rs' : RuleSet) : Prop where
  declares : ∀ name target, rs.Declares name target ↔ rs'.Declares name target
  names : (rs.rules.map (·.name)).Perm (rs'.rules.map (·.name))

variable {rs rs' : RuleSet}

theorem mem_bindings_iff {name : String} {target : AliasTarget} :
    (name, target) ∈ rs.bindings ↔ rs.Declares name target := by
  simp [bindings, Declares]

theorem rearranges_of_perm (hrules : rs.rules.Perm rs'.rules) (haliases : rs.aliases.Perm rs'.aliases) :
    rs.Rearranges rs' where
  declares name target := by simp only [Declares, haliases.mem_iff, hrules.mem_iff]
  names := hrules.map _

theorem Plain.of_perm (h : rs.Plain) (hrules : rs.rules.Perm rs'.rules) (haliases : rs.aliases.Perm rs'.aliases) :
    rs'.Plain where
  rules r hr := h.rules r (hrules.mem_iff.mpr hr)
  ids name target hd := h.ids name target (((rearranges_of_perm hrules haliases).declares ..).mpr hd)

theorem Rearranges.consistent (h : rs.Rearranges rs') (hrs : rs.Consistent) : rs'.Consistent where
  named name target hd := hrs.named name target ((h.declares ..).mpr hd)
  single name target other hd hother := hrs.single name target other ((h.declares ..).mpr hd) ((h.declares ..).mpr hother)
  distinct := h.names.nodup_iff.mp hrs.distinct

theorem Rearranges.symm (h : rs.Rearranges rs') : rs'.Rearranges rs :=
  ⟨fun name target => (h.declares name target).symm, h.names.symm⟩

theorem Registered.agree (hids : ∀ name target, rs.Declares name target → target.id.WellFormed)
    (h : rs.Rearranges rs') {r r' : AliasRegistry} (hr : rs.Registered r) (hr' : rs'.Registered r') (name : String) :
    Option.Rel (fun bound bound' => bound.agrees bound' = true) (r.lookup? name) (r'.lookup? name) := by
  cases hfound : r.lookup? name with
  | some bound =>
    have hdeclared := (h.declares ..).mp (hr.nothingElse name bound hfound)
    obtain ⟨bound', hfound', hagree⟩ := hr'.declared name bound hdeclared
    have hid' := hids name bound' ((h.declares ..).mpr (hr'.nothingElse name bound' hfound'))
    rw [hfound']
    exact .some (AliasTarget.agrees_symm hid' hagree)
  | none =>
    cases hfound' : r'.lookup? name with
    | none => exact .none
    | some bound' =>
      obtain ⟨bound, hbound, -⟩ := hr.declared name bound' ((h.declares ..).mpr (hr'.nothingElse name bound' hfound'))
      cases hfound.symm.trans hbound

namespace Plain

variable (h : rs.Plain)

include h

theorem fits_iff : AliasRegistry.Fits [] rs.bindings ↔
    (∀ name target, rs.Declares name target → name ≠ "") ∧
      ∀ name target other, rs.Declares name target → rs.Declares name other → target.agrees other = true := by
  rw [AliasRegistry.fits_nil_iff fun b hb => h.ids b.1 b.2 (mem_bindings_iff.mp hb)]
  simp only [Prod.forall, mem_bindings_iff]
  constructor
  · rintro ⟨hnamed, hsingle⟩
    exact ⟨hnamed, fun name target other hd hother => hsingle name target hd name other hother rfl⟩
  · rintro ⟨hnamed, hsingle⟩
    refine ⟨hnamed, ?_⟩
    rintro name target hd _ other hother rfl
    exact hsingle name target other hd hother

theorem pairwise_differ_iff : rs.rules.Pairwise RuleBook.Differ ↔ (rs.rules.map (·.name)).Nodup := by
  rw [List.Nodup, List.pairwise_map]
  refine List.Pairwise.iff_of_mem fun {r s} hr hs => ?_
  obtain ⟨first, hfirst⟩ := (h.rules r hr).name
  obtain ⟨second, hsecond⟩ := (h.rules s hs).name
  simp [RuleBook.Differ, hfirst, hsecond, Document.agrees]

/-- The aliases of a set that has been set up are those that are declared. -/
theorem registered_of_build {now : Moment} {solar : SolarCalendar} {book : RuleBook}
    (hbuild : RuleBook.build rs now solar = .ok book) : rs.Registered book.aliases := by
  obtain ⟨bound, hbound, hbuild'⟩ := Result.bind_eq_ok.mp hbuild
  obtain ⟨machines, -, hbuild'⟩ := Result.bind_eq_ok.mp hbuild'
  obtain ⟨armed, -, hbook⟩ := Result.bind_eq_ok.mp hbuild'
  cases hbook
  have hknows : bound.Knows rs.bindings :=
    AliasRegistry.knows_empty.registerAll (RuleBook.registerAll_of_bindAll hbound)
  have hfits : AliasRegistry.Fits [] rs.bindings := (RuleBook.build_isOk_iff.mp ⟨_, hbuild⟩).aliases
  have hids : ∀ b ∈ rs.bindings, b.2.id.WellFormed := fun b hb => h.ids b.1 b.2 (mem_bindings_iff.mp hb)
  refine ⟨rfl, fun name target hd => ?_, fun name target hfound => ?_⟩
  · obtain ⟨first, hfirst, hagree⟩ := hfits.exists_first hids (mem_bindings_iff.mpr hd)
    exact ⟨first.2, by simp [hknows.lookup, hfirst], hagree⟩
  · rw [AliasRegistry.lookup?_freeze, hknows.lookup] at hfound
    obtain ⟨first, hfirst, rfl⟩ := Option.map_eq_some_iff.mp hfound
    obtain rfl : first.1 = name := by simpa using List.find?_some hfirst
    exact mem_bindings_iff.mp (List.mem_of_find?_eq_some hfirst)

end Plain

end RuleSet

/-- A set of rules as they are made can be loaded if it is consistent. -/
theorem CheckedRuleSet.loadable_iff {rs : CheckedRuleSet} (h : rs.toRuleSet.Plain) (now : Moment)
    (solar : SolarCalendar) : rs.toRuleSet.Loadable now solar ↔ rs.toRuleSet.Consistent := by
  constructor
  · intro hload
    obtain ⟨hnamed, hsingle⟩ := h.fits_iff.mp hload.aliases
    exact ⟨hnamed, hsingle, h.pairwise_differ_iff.mp hload.differ⟩
  · intro hconsistent
    refine ⟨h.fits_iff.mpr ⟨hconsistent.named, hconsistent.single⟩, fun r hr => ?_,
      h.pairwise_differ_iff.mpr hconsistent.distinct, fun r hr => ?_, fun r hr => ?_⟩
    · obtain ⟨s, hname⟩ := (h.rules r hr).name
      rw [hname]
      rfl
    · obtain ⟨made, -, rfl⟩ := List.mem_map.mp hr
      exact made.patient
    · rw [Retrigger.arm, Retrigger.plan_of_specs_eq_nil (h.rules r hr).periodic]

namespace World

variable {w : World} {rs : RuleSet} {now : Option Moment}

theorem load_isOk_iff : (w.load rs now).2 = .ok () ↔
    ∃ book, RuleBook.build rs (now.getD w.platform.now) w.platform.solar = .ok book := by
  constructor
  · intro hload
    obtain ⟨book, hbuild, -⟩ := build_of_load (Prod.ext rfl hload)
    exact ⟨book, hbuild⟩
  · rintro ⟨book, hbuild⟩
    rw [load_of_build hbuild]

theorem load_isOk_iff_consistent {rs : CheckedRuleSet} (h : rs.toRuleSet.Plain) :
    (w.load rs.toRuleSet now).2 = .ok () ↔ rs.toRuleSet.Consistent := by
  rw [load_isOk_iff, RuleBook.build_isOk_iff, CheckedRuleSet.loadable_iff h]

theorem registered_of_load (h : rs.Plain) (hload : (w.load rs now).2 = .ok ()) :
    rs.Registered (w.load rs now).1.engine.book.aliases := by
  obtain ⟨book, hbuild, hworld⟩ := build_of_load (Prod.ext rfl hload)
  have hbook : (w.load rs now).1.engine.book = book := congrArg (·.engine.book) hworld
  rw [hbook]
  exact h.registered_of_build hbuild

/-- A rule set without periodic fires whose rules have texts as names is loaded if it is consistent and refused
otherwise. A registry that takes no more names then knows the aliases that are declared. So neither whether a set
is loaded nor what a name stands for depends on the order of rules and declarations. -/
theorem loads_consistent_sets (w : World) (now : Option Moment) (rs : CheckedRuleSet) (h : rs.toRuleSet.Plain) :
    ((w.load rs.toRuleSet now).2 = .ok () ↔ rs.toRuleSet.Consistent) ∧
      (rs.toRuleSet.Consistent → rs.toRuleSet.Registered (w.load rs.toRuleSet now).1.engine.book.aliases) ∧
      ∀ rs' : CheckedRuleSet, rs'.toRuleSet.Plain → rs.toRuleSet.Rearranges rs'.toRuleSet →
        ((w.load rs'.toRuleSet now).2 = .ok () ↔ (w.load rs.toRuleSet now).2 = .ok ()) ∧
          (rs.toRuleSet.Consistent → ∀ name, Option.Rel (fun bound bound' => bound.agrees bound' = true)
            ((w.load rs.toRuleSet now).1.engine.book.aliases.lookup? name)
            ((w.load rs'.toRuleSet now).1.engine.book.aliases.lookup? name)) := by
  have hregistered {rs : CheckedRuleSet} (h : rs.toRuleSet.Plain) (hconsistent : rs.toRuleSet.Consistent) :
      rs.toRuleSet.Registered (w.load rs.toRuleSet now).1.engine.book.aliases :=
    registered_of_load h ((load_isOk_iff_consistent h).mpr hconsistent)
  refine ⟨load_isOk_iff_consistent h, hregistered h, fun rs' h' horder => ⟨?_, fun hconsistent => ?_⟩⟩
  · rw [load_isOk_iff_consistent h, load_isOk_iff_consistent h']
    exact ⟨horder.symm.consistent, horder.consistent⟩
  · exact (hregistered h hconsistent).agree h.ids horder (hregistered h' (horder.consistent hconsistent))

def lamp (name id : String) (h : (Document.text name).isSet = true) : CheckedRule where
  name := .text name
  aliases := [("Lamp", ⟨.channel, .text id⟩)]
  named := h
  patient := by decide

def lamps (desk hall : String) : CheckedRuleSet where
  rules := [lamp "evening" desk rfl, lamp "morning" hall rfl]
  aliases := [("Door", ⟨.item, .text "door"⟩)]

theorem plain_lamps (desk hall : String) : (lamps desk hall).toRuleSet.Plain where
  rules r hr := by
    simp only [lamps, CheckedRuleSet.toRuleSet, List.map_cons, List.map_nil, List.mem_cons, List.not_mem_nil,
      or_false] at hr
    rcases hr with rfl | rfl
    · exact ⟨⟨_, rfl⟩, rfl⟩
    · exact ⟨⟨_, rfl⟩, rfl⟩
  ids name target hd := by
    have hbindings := RuleSet.mem_bindings_iff.mpr hd
    simp only [RuleSet.bindings, CheckedRuleSet.toRuleSet, lamps, lamp, List.map_cons, List.map_nil, List.flatten_cons,
      List.flatten_nil, List.mem_append, List.mem_singleton, List.append_nil, Prod.mk.injEq] at hbindings
    rcases hbindings with ⟨-, rfl⟩ | ⟨-, rfl⟩ | ⟨-, rfl⟩ <;> exact .scalar rfl

/-- The rules may share a lamp, whichever of them comes first, but their lamps may not be different ones. -/
theorem loads_consistent_sets_lamps :
    let w : World := { platform := { now := ⟨0, none⟩ } }
    let shared := lamps "hub:desk" "hub:desk"
    let reversed : CheckedRuleSet := { shared with rules := shared.rules.reverse }
    let split := lamps "hub:desk" "hub:hall"
    shared.toRuleSet.Plain ∧ shared.toRuleSet.Consistent ∧ reversed.toRuleSet.Plain ∧
      shared.toRuleSet.Rearranges reversed.toRuleSet ∧ (w.load reversed.toRuleSet none).2 = .ok () ∧
      split.toRuleSet.Plain ∧ ¬split.toRuleSet.Consistent := by
  intro w shared reversed split
  have hperm : shared.toRuleSet.rules.Perm reversed.toRuleSet.rules := (List.reverse_perm _).symm.map _
  have hplain : shared.toRuleSet.Plain := plain_lamps ..
  have hplain' : reversed.toRuleSet.Plain := hplain.of_perm hperm (.refl _)
  have horder : shared.toRuleSet.Rearranges reversed.toRuleSet := RuleSet.rearranges_of_perm hperm (.refl _)
  obtain ⟨hloads, -, hreorder⟩ := loads_consistent_sets w none shared hplain
  have hload : (w.load shared.toRuleSet none).2 = .ok () := Result.ok_of_toOption (by decide +kernel)
  have hsplit : (w.load split.toRuleSet none).2 ≠ .ok () := by
    intro hload
    have hnone : (w.load split.toRuleSet none).2.toOption = none := by decide +kernel
    rw [hload] at hnone
    cases hnone
  exact ⟨hplain, hloads.mp hload, hplain', horder, (hreorder reversed hplain' horder).1.mpr hload, plain_lamps ..,
    fun hconsistent => hsplit ((loads_consistent_sets w none split (plain_lamps ..)).1.mpr hconsistent)⟩

end World
end Domotics
