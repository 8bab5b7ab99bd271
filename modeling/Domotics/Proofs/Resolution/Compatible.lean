import Domotics.Proofs.Catalog.Label
import Domotics.Proofs.Resolution.Unordered

/-!
Labels with a type. As soon as one of the devices that a label stands for accepts the type of the value, those that
do not accept it have no part in the choice: the tie-break comes to the same end without them, and other such
channels may be added to the things or be missing there.
-/

namespace Domotics

def Thing.bare (t : Thing) : Thing := { t with channels := [] }

namespace Catalog

def accepting (c : Catalog) (type : ValueType) : List Channel := c.channels.filter (·.accepts.contains type)

def Accepts (c : Catalog) (type : ValueType) (d : Description) : Bool :=
  ((c.accepted? d.ref).getD []).contains type

/-- Two catalogs with the same things and the same channels that accept a type, in whatever order. What other channels
their things have is left open. -/
structure SameFor (type : ValueType) (c c' : Catalog) : Prop where
  things : (c.things.map Thing.bare).Perm (c'.things.map Thing.bare)
  channels : (c.accepting type).Perm (c'.accepting type)

/-- What a label points to, registered or not. -/
def pointsTo (c : Catalog) (spec : String) : List Reference :=
  c.things.flatMap (matchesOf spec (Text.split '.' spec))

variable {c c' : Catalog} {type : ValueType} {channel : Channel} {d : Description} {spec : String}

/-- A label points to things and to identifiers that their channels would have, whatever channels they have. -/
theorem SameFor.mem_pointsTo_iff (h : c.SameFor type c') (spec : String) (r : Reference) :
    r ∈ c.pointsTo spec ↔ r ∈ c'.pointsTo spec := by
  have hbare (c : Catalog) :
      c.pointsTo spec = (c.things.map Thing.bare).flatMap (matchesOf spec (Text.split '.' spec)) := by
    rw [List.flatMap_map]
    rfl
  rw [hbare, hbare, List.mem_flatMap, List.mem_flatMap]
  simp only [h.things.mem_iff]

theorem mem_labelled_iff (h : c.Consistent) : d ∈ c.labelled spec ↔ d.ref ∈ c.pointsTo spec ∧ c.Current d := by
  change d ∈ appendNew [] ((c.pointsTo spec).filterMap c.describe?) ↔ _
  rw [mem_appendNew_nil_iff h fun d hd => (h.mem_filterMap_describe?_iff.mp hd).2, h.mem_filterMap_describe?_iff]

theorem mem_accepting_iff : channel ∈ c.accepting type ↔ channel ∈ c.channels ∧ type ∈ channel.accepts := by
  simp [accepting]

theorem sameFor_addChannel {thing name : String} {accepts : List ValueType} {isDefault : Bool}
    (hadd : c.addChannel thing name accepts isDefault = .ok (channel, c')) (htype : type ∉ accepts) :
    c.SameFor type c' := by
  obtain ⟨-, -, rfl, rfl⟩ := addChannel_eq_ok hadd
  have hbare (t : Thing) : (attach thing (channelUid thing name) t).bare = t.bare := by
    rw [attach]
    split <;> rfl
  refine ⟨.of_eq ?_, .of_eq ?_⟩
  · simp [hbare]
  · simp [accepting, List.filter_append, htype]

theorem sameFor_perform {thing name : String} {accepts : List ValueType} (c : Catalog) (isDefault : Bool)
    (htype : type ∉ accepts) : c.SameFor type (c.perform (.addChannel thing name accepts isDefault)) :=
  after_keeps (P := c.SameFor type) ⟨.refl _, .refl _⟩ fun _ _ hadd => sameFor_addChannel hadd htype

theorem Consistent.describe?_channel (h : c.Consistent) {owner : Thing} (hchannel : channel ∈ c.channels)
    (howner : owner ∈ c.things) (hthing : channel.thing = owner.uid) :
    c.describe? ⟨.channel, channel.uid⟩ = some (channel.description owner) :=
  h.describe?_eq_some_iff.mpr (current_channel_iff.mpr ⟨channel, hchannel, rfl, owner, howner, hthing, rfl⟩)

theorem accepts_channel_iff (h : c.Consistent) (hchannel : channel ∈ c.channels)
    (href : d.ref = ⟨.channel, channel.uid⟩) : c.Accepts type d = true ↔ type ∈ channel.accepts := by
  have hfound := h.channel?_eq_some_iff.mpr ⟨hchannel, rfl⟩
  simp [Accepts, accepted?, href, hfound]

/-- A thing takes nothing but its status. -/
theorem not_accepts_thing (hkind : d.ref.kind = .thing) (htype : type ≠ .status) :
    c.Accepts type d = false := by
  cases hthing : c.thing? d.ref.id <;> simp [Accepts, accepted?, hkind, hthing, htype]

end Catalog

theorem only?_eq_some_iff {α : Type} {xs : List α} {a : α} : only? xs = some a ↔ xs = [a] := by
  match xs with
  | [] => simp [only?]
  | [b] => simp [only?]
  | _ :: _ :: _ => simp [only?]

namespace Resolution

open Catalog

/-- The devices that a label stands for: those that it names, but in the place of a thing its channels, if it has
any. -/
def members (c : Catalog) (spec : String) : List Description :=
  Catalog.appendNew [] ((c.labelled spec).flatMap (expand c))

def compatible (c : Catalog) (spec : String) (type : ValueType) : List Description :=
  (members c spec).filter (c.Accepts type)

section

variable {c c' : Catalog} {type : ValueType} {ds : List Description} {d : Description} {spec : String}

theorem pool_of_filter_ne_nil (h : ds.filter (c.Accepts type) ≠ []) :
    pool c (some type) ds = ds.filter (c.Accepts type) := by
  obtain ⟨d, rest, hfilter⟩ := List.exists_cons_of_ne_nil h
  have hfit : (ds.filter fun d => ((c.accepted? d.ref).getD []).contains type) = d :: rest := hfilter
  rw [pool, hfilter]
  simp only [hfit]

theorem tieBreak_of_accepts (h : ∀ d ∈ ds, c.Accepts type d = true) (hne : ds ≠ []) :
    tieBreak c (some type) ds = (only? ds <|> only? (ds.filter fun d => c.isDefault d.ref)) := by
  have hall : ds.filter (c.Accepts type) = ds := List.filter_eq_self.mpr h
  rw [tieBreak_eq, pool_of_filter_ne_nil (by rwa [hall]), hall]
  cases only? ds <;> simp

theorem only?_filter {p : Description → Bool} (hone : only? ds = some d) (h : ds.filter p ≠ []) :
    only? (ds.filter p) = some d := by
  rw [only?_eq_some_iff] at hone
  subst hone
  cases hp : p d with
  | true => simp [hp, only?]
  | false => simp [hp] at h

/-- If a device accepts the type, the tie-break comes to the same end without those that do not. -/
theorem tieBreak_eq_tieBreak_filter (h : ds.filter (c.Accepts type) ≠ []) :
    tieBreak c (some type) ds = tieBreak c (some type) (ds.filter (c.Accepts type)) := by
  rw [tieBreak_of_accepts (fun _ => List.of_mem_filter) h, tieBreak_eq, pool_of_filter_ne_nil h]
  have hall : ∀ d, only? ds = some d → only? (ds.filter (c.Accepts type)) = some d := fun d hone =>
    only?_filter hone h
  generalize ds.filter (c.Accepts type) = fit at hall
  cases hfit : only? fit with
  | none =>
    have hmany : only? ds = none := by
      cases hone : only? ds with
      | none => rfl
      | some d => cases hfit.symm.trans (hall d hone)
    simp [hmany]
  | some d =>
    -- The only one that is left is taken, as the only device, the only default channel or the only one of the pool.
    have hds : only? ds = none ∨ only? ds = some d := by
      cases hone : only? ds with
      | none => exact .inl rfl
      | some e => exact .inr ((hall e hone).symm.trans hfit)
    have hdefault : only? (fit.filter fun d => c.isDefault d.ref) = none ∨
        only? (fit.filter fun d => c.isDefault d.ref) = some d := by
      rw [only?_eq_some_iff] at hfit
      subst hfit
      cases hd : c.isDefault d.ref <;> simp [hd, only?]
    rcases hds with hds | hds <;> rcases hdefault with hdefault | hdefault <;> simp [hds, hdefault]

theorem accepts_of_mem_compatible : ∀ d ∈ compatible c spec type, c.Accepts type d = true :=
  fun _ => List.of_mem_filter

theorem mem_expand_of_thing {channel : Channel} {x : Description} (hkind : d.ref.kind = .thing)
    (hchannel : channel ∈ c.channelsOf d.ref.id) (hx : c.describe? ⟨.channel, channel.uid⟩ = some x) :
    x ∈ expand c d := by
  have hmem : x ∈ (c.channelsOf d.ref.id).filterMap fun channel => c.describe? ⟨.channel, channel.uid⟩ :=
    List.mem_filterMap.mpr ⟨channel, hchannel, hx⟩
  rw [expand, if_pos hkind]
  split
  · next hnone =>
    rw [hnone] at hmem
    cases hmem
  · exact hmem

theorem eq_or_of_mem_expand {x : Description} (hx : x ∈ expand c d) :
    x = d ∨ d.ref.kind = .thing ∧ ∃ channel ∈ c.channelsOf d.ref.id, c.describe? ⟨.channel, channel.uid⟩ = some x := by
  rw [expand] at hx
  split_ifs at hx with hkind
  · split at hx
    · exact .inl (List.mem_singleton.mp hx)
    · exact .inr ⟨hkind, List.mem_filterMap.mp hx⟩
  · exact .inl (List.mem_singleton.mp hx)

variable (h : c.Consistent)

include h

theorem mem_members_iff : d ∈ members c spec ↔ ∃ x ∈ c.labelled spec, d ∈ expand c x := by
  rw [members, mem_appendNew_nil_iff h, List.mem_flatMap]
  intro x hx
  obtain ⟨y, hy, hx⟩ := List.mem_flatMap.mp hx
  exact current_of_mem_expand h ((mem_labelled_iff h).mp hy).2 hx

/-- The devices that accept a type other than a status are the channels that accept it and to which, or to whose
thing, the label points. -/
theorem mem_compatible_iff (htype : type ≠ .status) :
    d ∈ compatible c spec type ↔ ∃ channel ∈ c.accepting type, ∃ owner ∈ c.things.map Thing.bare,
      channel.thing = owner.uid ∧ d = channel.description owner ∧
        (⟨.channel, channel.uid⟩ ∈ c.pointsTo spec ∨ ⟨.thing, owner.uid⟩ ∈ c.pointsTo spec) := by
  rw [compatible, List.mem_filter, mem_members_iff h]
  constructor
  · rintro ⟨⟨x, hx, hd⟩, haccepts⟩
    obtain ⟨hpoints, hcurrent⟩ := (mem_labelled_iff h).mp hx
    rcases eq_or_of_mem_expand hd with rfl | ⟨hkind, channel, hchannel, hdescribe⟩
    · cases hkind : d.ref.kind with
      | item => exact absurd hkind (current_of_mem_labelled h hx).2
      | thing => simp [not_accepts_thing hkind htype] at haccepts
      | channel =>
        have href : d.ref = ⟨.channel, d.ref.id⟩ := by rw [← hkind]
        obtain ⟨channel, hchannel, huid, owner, howner, hthing, heq⟩ := current_channel_iff.mp ⟨href, hcurrent⟩
        rw [← huid] at href
        exact ⟨channel, mem_accepting_iff.mpr ⟨hchannel, (accepts_channel_iff h hchannel href).mp haccepts⟩,
          owner.bare, List.mem_map_of_mem howner, hthing, heq, .inl (href ▸ hpoints)⟩
    · rw [h.channelsOf_eq, belonging, List.mem_filter, beq_iff_eq] at hchannel
      obtain ⟨owner, howner, huid⟩ := h.owned channel hchannel.1
      cases (h.describe?_channel hchannel.1 howner huid.symm).symm.trans hdescribe
      have href : x.ref = ⟨.thing, owner.uid⟩ := by rw [huid, hchannel.2, ← hkind]
      exact ⟨channel, mem_accepting_iff.mpr ⟨hchannel.1, (accepts_channel_iff h hchannel.1 rfl).mp haccepts⟩,
        owner.bare, List.mem_map_of_mem howner, huid.symm, rfl, .inr (href ▸ hpoints)⟩
  · rintro ⟨channel, hchannel, _, hbare, hthing, rfl, hpoints⟩
    obtain ⟨owner, howner, rfl⟩ := List.mem_map.mp hbare
    obtain ⟨hchannel, haccepts⟩ := mem_accepting_iff.mp hchannel
    have hdescribe := h.describe?_channel hchannel howner hthing
    refine ⟨?_, (accepts_channel_iff h hchannel rfl).mpr haccepts⟩
    rcases hpoints with hpoints | hpoints
    · refine ⟨_, (mem_labelled_iff h).mpr ⟨hpoints, h.current_of_describe? hdescribe⟩, ?_⟩
      rw [expand, if_neg (by simp [Channel.description])]
      exact List.mem_singleton_self _
    · obtain ⟨href, hcurrent⟩ := (h.current_thing_iff howner).mpr rfl
      refine ⟨owner.description, (mem_labelled_iff h).mpr ⟨hpoints, hcurrent⟩, ?_⟩
      refine mem_expand_of_thing rfl ?_ hdescribe
      rw [h.channelsOf_eq]
      exact List.mem_filter.mpr ⟨hchannel, beq_iff_eq.mpr hthing⟩

end

section

variable {c c' : Catalog} {type : ValueType} {spec : String} (hsame : c.SameFor type c') (h : c.Consistent)
  (h' : c'.Consistent) (htype : type ≠ .status)

include hsame h h' htype

theorem compatible_perm : (compatible c spec type).Perm (compatible c' spec type) := by
  have hnodup (c : Catalog) : (compatible c spec type).Nodup := by
    refine List.Nodup.filter _ (List.Nodup.of_map _ (nodup_appendNew ?_))
    exact List.nodup_nil
  refine (List.perm_ext_iff_of_nodup (hnodup c) (hnodup c')).mpr fun d => ?_
  rw [mem_compatible_iff h htype, mem_compatible_iff h' htype]
  simp only [hsame.channels.mem_iff, hsame.things.mem_iff, hsame.mem_pointsTo_iff]

theorem isDefault_eq_of_mem_compatible {d : Description} (hd : d ∈ compatible c spec type) :
    c.isDefault d.ref = c'.isDefault d.ref := by
  obtain ⟨channel, hchannel, owner, -, -, rfl, -⟩ := (mem_compatible_iff h htype).mp hd
  have hfound := h.channel?_eq_some_iff.mpr ⟨(mem_accepting_iff.mp hchannel).1, rfl⟩
  have hchannel' := hsame.channels.mem_iff.mp hchannel
  have hfound' := h'.channel?_eq_some_iff.mpr ⟨(mem_accepting_iff.mp hchannel').1, rfl⟩
  simp [isDefault, Channel.description, hfound, hfound']

theorem tieBreak_compatible_eq (hsome : compatible c spec type ≠ []) :
    tieBreak c (some type) (compatible c spec type) = tieBreak c' (some type) (compatible c' spec type) := by
  have hperm : (compatible c spec type).Perm (compatible c' spec type) := compatible_perm hsame h h' htype
  have hsome' : compatible c' spec type ≠ [] := fun hnone => hsome (List.perm_nil.mp (hnone ▸ hperm))
  have hdefaults : (compatible c spec type).filter (fun d => c.isDefault d.ref) =
      (compatible c spec type).filter fun d => c'.isDefault d.ref :=
    List.filter_congr fun d hd => isDefault_eq_of_mem_compatible hsame h h' htype hd
  rw [tieBreak_of_accepts accepts_of_mem_compatible hsome, tieBreak_of_accepts accepts_of_mem_compatible hsome',
    hdefaults, only?_eq_of_perm hperm, only?_eq_of_perm (hperm.filter _)]

end

@[simp] theorem settle_reference (chosen : Option Description) (ds : List Description) :
    (settle chosen ds).reference = chosen := by
  cases chosen <;> rfl

theorem byLabel_of_compatible {c : Catalog} {type : ValueType} {spec : String} (htype : type ≠ .status)
    (hsome : compatible c spec type ≠ []) : byLabel c (some type) (c.labelled spec) =
      settle (tieBreak c (some type) (compatible c spec type)) (members c spec) := by
  have hne : c.labelled spec ≠ [] := by
    intro hnone
    simp [compatible, members, hnone, Catalog.appendNew] at hsome
  have hbreak : tieBreak c (some type) (members c spec) = tieBreak c (some type) (compatible c spec type) :=
    tieBreak_eq_tieBreak_filter hsome
  rw [byLabel_eq _ _ hne, if_neg (by simpa using htype), ← hbreak]
  rfl

end Resolution

namespace Resolver

open Resolution

/-- A text with which nothing but a label can be meant: it is no alias, and neither the name of an item nor the
identifier of a thing or a channel. -/
structure MeansLabel (r : Resolver) (spec : String) : Prop where
  unbound : r.aliases.lookup? spec = none
  unregistered : ∀ kind, r.catalog.describe? ⟨kind, spec⟩ = none

variable {a : AliasRegistry} {ops : List Operation} {spec : String} {type : ValueType}

theorem consistent_run (a : AliasRegistry) (ops : List Operation) : ((ofSources {} a).run ops).catalog.Consistent := by
  rw [catalog_run]
  exact Catalog.consistent_empty.run _

theorem MeansLabel.lookup (h : ((ofSources {} a).run ops).MeansLabel spec) (type : Option ValueType) :
    (((ofSources {} a).run ops).lookup (.text spec) type).2 =
      .ok (byLabel ((ofSources {} a).run ops).catalog type (((ofSources {} a).run ops).catalog.labelled spec)) := by
  rw [lookup_run_eq_ofTarget]
  simp only [Resolution.ofTarget, ofText, h.unbound, byName, h.unregistered]

/-- Two lookups that come to the same status and the same device. Candidates may differ. -/
def SameChoice (answer answer' : Result Resolution) : Prop :=
  ∃ found found', answer = .ok found ∧ answer' = .ok found' ∧ found.status = found'.status ∧
    found.reference = found'.reference

theorem sameChoice_settle (chosen : Option Description) (ds ds' : List Description) :
    SameChoice (.ok (settle chosen ds)) (.ok (settle chosen ds')) := by
  cases chosen with
  | some d => exact ⟨_, _, rfl, rfl, rfl, rfl⟩
  | none => exact ⟨_, _, rfl, rfl, rfl, rfl⟩

/-- A label with a type other than a status, in a catalog that has come about by any operations. If one of the
devices that the label stands for accepts the type, then the lookup comes to what the tie-break makes of those that
accept it: a device that is found accepts the type, the only one that accepts it is found, whichever channels are
default channels, and nothing changes with channels that do not accept it, whether they are registered or missing,
as long as nothing but a label is meant. -/
theorem settled_by_compatible (a : AliasRegistry) (ops : List Operation) (spec : String) (type : ValueType)
    (htype : type ≠ .status) :
    let r := (ofSources {} a).run ops
    let fit := compatible r.catalog spec type
    let answer := (r.lookup (.text spec) (some type)).2
    r.MeansLabel spec → fit ≠ [] →
      answer = .ok (settle (tieBreak r.catalog (some type) fit) (members r.catalog spec)) ∧
      (∀ found d, answer = .ok found → found.reference = some d → r.catalog.Accepts type d = true) ∧
      (∀ d, fit = [d] → answer = .ok (.found d)) ∧
      (∀ a' ops', let r' := (ofSources {} a').run ops'
        r.catalog.SameFor type r'.catalog → r'.MeansLabel spec →
          SameChoice answer (r'.lookup (.text spec) (some type)).2) ∧
      ∀ thing name accepts isDefault, type ∉ accepts →
        let r' := r.perform (.catalog (.addChannel thing name accepts isDefault))
        r'.MeansLabel spec → SameChoice answer (r'.lookup (.text spec) (some type)).2 := by
  intro r fit answer hlabel hsome
  have hc : r.catalog.Consistent := consistent_run a ops
  have hanswer : answer = .ok (settle (tieBreak r.catalog (some type) fit) (members r.catalog spec)) := by
    rw [← byLabel_of_compatible htype hsome]
    exact hlabel.lookup (some type)
  have hothers : ∀ a' ops', let r' := (ofSources {} a').run ops'
      r.catalog.SameFor type r'.catalog → r'.MeansLabel spec →
        SameChoice answer (r'.lookup (.text spec) (some type)).2 := by
    intro a' ops' r' hsame hlabel'
    have hc' : r'.catalog.Consistent := consistent_run a' ops'
    have hsome' : compatible r'.catalog spec type ≠ [] := fun hnone =>
      hsome (List.perm_nil.mp (hnone ▸ compatible_perm hsame hc hc' htype))
    rw [hanswer, hlabel'.lookup, byLabel_of_compatible htype hsome',
      tieBreak_compatible_eq hsame hc hc' htype hsome]
    exact sameChoice_settle _ _ _
  refine ⟨hanswer, fun found d hfound hd => ?_, fun d hd => ?_, hothers, fun thing name accepts isDefault hnot => ?_⟩
  · rw [hanswer] at hfound
    cases hfound
    rw [settle_reference] at hd
    exact accepts_of_mem_compatible d (mem_of_tieBreak hd)
  · rw [hanswer, hd]
    rfl
  · intro r' hlabel'
    have hrun : r' = (ofSources {} a).run (ops ++ [.catalog (.addChannel thing name accepts isDefault)]) := by
      simp [r', r, Resolver.run]
    have hsame : r.catalog.SameFor type r'.catalog := Catalog.sameFor_perform r.catalog isDefault hnot
    rw [hrun] at hsame hlabel' ⊢
    exact hothers a _ hsame hlabel'

/-- Two lamps of one label. One can be dimmed, but its default channel only switches it; the other only changes its
colour. -/
def dimmerOps : List Operation :=
  [.catalog (.addThing "desk" (some "Lamp") (some "Hall") none),
    .catalog (.addChannel "desk" "power" [.onOff] true),
    .catalog (.addChannel "desk" "level" [.percent, .onOff] false),
    .catalog (.addThing "shelf" (some "Lamp") (some "Hall") none),
    .catalog (.addChannel "shelf" "colour" [.text] true)]

def plainDimmerOps : List Operation :=
  dimmerOps ++ [.catalog (.removeThing "desk"), .catalog (.removeThing "shelf"),
    .catalog (.addThing "shelf" (some "Lamp") (some "Hall") none),
    .catalog (.addThing "desk" (some "Lamp") (some "Hall") none),
    .catalog (.addChannel "desk" "level" [.percent, .onOff] false)]

theorem settled_by_compatible_dimmer :
    let r := (ofSources {} {}).run dimmerOps
    let r' := (ofSources {} {}).run plainDimmerOps
    let wider := r.perform (.catalog (.addChannel "shelf" "power" [.onOff] false))
    let answer (r : Resolver) := (r.lookup (.text "Hall.Lamp") (some .percent)).2
    let level : Description := ⟨⟨.channel, "desk:level"⟩, some "Hall", some "Lamp"⟩
    compatible r.catalog "Hall.Lamp" .percent = [level] ∧ answer r = .ok (.found level) ∧
      (members r.catalog "Hall.Lamp").length = 3 ∧ (members r'.catalog "Hall.Lamp").length = 2 ∧
      SameChoice (answer r) (answer r') ∧ SameChoice (answer r) (answer wider) := by
  intro r r' wider answer level
  have hfit : compatible r.catalog "Hall.Lamp" .percent = [level] := by decide +kernel
  have hlabel : r.MeansLabel "Hall.Lamp" := ⟨rfl, fun kind => by cases kind <;> decide +kernel⟩
  have hlabel' : r'.MeansLabel "Hall.Lamp" := ⟨rfl, fun kind => by cases kind <;> decide +kernel⟩
  have hwider : wider.MeansLabel "Hall.Lamp" := ⟨rfl, fun kind => by cases kind <;> decide +kernel⟩
  have hsame : r.catalog.SameFor .percent r'.catalog := ⟨by decide +kernel, by decide +kernel⟩
  obtain ⟨-, -, hunique, hothers, hadded⟩ :=
    settled_by_compatible {} dimmerOps "Hall.Lamp" .percent (by decide) hlabel (by rw [hfit]; simp)
  exact ⟨hfit, hunique level hfit, by decide +kernel, by decide +kernel, hothers {} plainDimmerOps hsame hlabel',
    hadded "shelf" "power" [.onOff] false (by decide) hwider⟩

end Resolver
end Domotics
