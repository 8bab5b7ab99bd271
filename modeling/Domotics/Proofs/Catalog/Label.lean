import Domotics.Proofs.Resolution.Grounded
import Domotics.Proofs.Text.Split

/-!
What a label names. A label is a text without structure of its own: it is the label of things, and where it has
one dot or two, also a location with a label or a label with the name of a channel. The devices come thing by
thing and none comes twice. A channel is looked for under the identifier that the thing would have given to it,
and not among the channels of the thing, so where the identifier of one thing goes on after that of another and a
colon, channels of the one may be found for the other.
-/

namespace Domotics

namespace Text

structure OneDot (s first second : String) : Prop where
  eq : s = first ++ "." ++ second
  first : '.' ∉ first.toList
  second : '.' ∉ second.toList

structure TwoDots (s first second third : String) : Prop where
  eq : s = first ++ "." ++ second ++ "." ++ third
  first : '.' ∉ first.toList
  second : '.' ∉ second.toList
  third : '.' ∉ third.toList

theorem split_eq_pair_iff {s first second : String} : split '.' s = [first, second] ↔ OneDot s first second := by
  rw [split_eq_iff]
  constructor
  · rintro ⟨-, hfree, hs⟩
    exact ⟨String.toList_inj.mp (by simpa using hs), hfree _ (by simp), hfree _ (by simp)⟩
  · rintro ⟨rfl, hfirst, hsecond⟩
    exact ⟨by simp, by simp [hfirst, hsecond], by simp⟩

theorem split_eq_triple_iff {s first second third : String} :
    split '.' s = [first, second, third] ↔ TwoDots s first second third := by
  rw [split_eq_iff]
  constructor
  · rintro ⟨-, hfree, hs⟩
    exact ⟨String.toList_inj.mp (by simpa using hs), hfree _ (by simp), hfree _ (by simp), hfree _ (by simp)⟩
  · rintro ⟨rfl, hfirst, hsecond, hthird⟩
    exact ⟨by simp, by simp [hfirst, hsecond, hthird], by simp⟩

theorem OneDot.ne_second {s first second : String} (h : OneDot s first second) : s ≠ second := by
  rintro rfl
  have hlength := congrArg String.length h.eq
  simp at hlength

end Text

def Thing.description (t : Thing) : Description := ⟨⟨.thing, t.uid⟩, t.location, t.label⟩

def Channel.description (channel : Channel) (owner : Thing) : Description :=
  ⟨⟨.channel, channel.uid⟩, owner.location, owner.label⟩

namespace Catalog

open Text

/-- A label names a thing if it is the label of the thing or its location with its label. -/
def NamesThing (spec : String) (t : Thing) : Prop :=
  t.label = some spec ∨
    ∃ location label, OneDot spec location label ∧ t.location = some location ∧ t.label = some label

/-- A label names the channels of a name that belong to a thing, if it is the label of the thing with this name,
or the location and the label of the thing with this name. -/
def NamesChannel (spec : String) (t : Thing) (name : String) : Prop :=
  (∃ label, OneDot spec label name ∧ t.label = some label) ∨
    ∃ location label, TwoDots spec location label name ∧ t.location = some location ∧ t.label = some label

def Names (c : Catalog) (spec : String) (t : Thing) (d : Description) : Prop :=
  (NamesThing spec t ∧ d = t.description) ∨
    ∃ channel ∈ c.channels, channel.thing = t.uid ∧ NamesChannel spec t channel.name ∧ d = channel.description t

/-- A channel of another thing that has the identifier under which a thing would have registered the channel that
a label asks for. -/
def Borrows (c : Catalog) (spec : String) (t : Thing) (d : Description) : Prop :=
  ∃ channel ∈ c.channels, ∃ owner ∈ c.things, channel.thing = owner.uid ∧ owner.uid ≠ t.uid ∧
    d = channel.description owner ∧ ∃ name, NamesChannel spec t name ∧ channel.uid = channelUid t.uid name

/-- An identifier that goes on after another one and a colon. -/
def Continues (long short : String) : Prop := ∃ rest, long = channelUid short rest

def groupOf (c : Catalog) (spec : String) (t : Thing) : List Description :=
  (matchesOf spec (Text.split '.' spec) t).filterMap c.describe?

variable {c : Catalog} {spec name name' : String} {t t' owner : Thing} {channel : Channel} {d : Description}
  {r : Reference}

theorem continues_of_append {uid uid' : String} {between : List Char} (huid : uid'.toList = uid.toList ++ between)
    (hname : ':' :: name.toList = between ++ ':' :: name'.toList) :
    (uid = uid' ∧ name = name') ∨ ∃ rest, uid' = channelUid uid rest ∧ name = channelUid rest name' := by
  cases between with
  | nil =>
    refine .inl ⟨String.toList_inj.mp ?_, String.toList_inj.mp ?_⟩
    · simpa using huid.symm
    · simpa using hname
  | cons colon rest =>
    obtain ⟨rfl, hrest⟩ := List.cons.inj hname
    refine .inr ⟨String.ofList rest, String.toList_inj.mp ?_, String.toList_inj.mp ?_⟩
    · simpa [channelUid] using huid
    · simpa [channelUid] using hrest

/-- Two identifiers of channels are the same if things and names are, or if one thing continues the other by what
the name of its channel lacks. -/
theorem channelUid_eq_channelUid_iff {uid uid' : String} : channelUid uid name = channelUid uid' name' ↔
    (uid = uid' ∧ name = name') ∨ (∃ rest, uid' = channelUid uid rest ∧ name = channelUid rest name') ∨
      ∃ rest, uid = channelUid uid' rest ∧ name' = channelUid rest name := by
  constructor
  · intro h
    have hchars : uid.toList ++ ':' :: name.toList = uid'.toList ++ ':' :: name'.toList := by
      simpa [channelUid] using congrArg String.toList h
    rcases List.append_eq_append_iff.mp hchars with ⟨between, huid, hname⟩ | ⟨between, huid, hname⟩
    · rcases continues_of_append huid hname with hsame | hrest
      · exact .inl hsame
      · exact .inr (.inl hrest)
    · rcases continues_of_append huid hname with ⟨rfl, rfl⟩ | hrest
      · exact .inl ⟨rfl, rfl⟩
      · exact .inr (.inr hrest)
  · rintro (⟨rfl, rfl⟩ | ⟨rest, rfl, rfl⟩ | ⟨rest, rfl, rfl⟩)
    · rfl
    · simp [channelUid, String.append_assoc]
    · simp [channelUid, String.append_assoc]

theorem channelUid_left_inj {uid uid' : String} : channelUid uid name = channelUid uid' name ↔ uid = uid' := by
  simp [channelUid, ← String.toList_inj]

theorem channelUid_right_inj {uid : String} : channelUid uid name = channelUid uid name' ↔ name = name' := by
  simp [channelUid, ← String.toList_inj]

theorem namesThing_iff : NamesThing spec t ↔ t.label = some spec ∨ ∃ location label,
    Text.split '.' spec = [location, label] ∧ t.location = some location ∧ t.label = some label := by
  simp only [NamesThing, split_eq_pair_iff]

theorem namesChannel_iff : NamesChannel spec t name ↔
    (∃ label, Text.split '.' spec = [label, name] ∧ t.label = some label) ∨ ∃ location label,
      Text.split '.' spec = [location, label, name] ∧ t.location = some location ∧ t.label = some label := by
  simp only [NamesChannel, split_eq_pair_iff, split_eq_triple_iff]

theorem mem_matchesOf_iff : r ∈ matchesOf spec (Text.split '.' spec) t ↔
    (NamesThing spec t ∧ r = ⟨.thing, t.uid⟩) ∨
      ∃ name, NamesChannel spec t name ∧ r = ⟨.channel, channelUid t.uid name⟩ := by
  simp only [namesThing_iff, namesChannel_iff, matchesOf.eq_def]
  rcases Text.split '.' spec with _ | ⟨first, _ | ⟨second, _ | ⟨third, _ | ⟨fourth, rest⟩⟩⟩⟩
  · simp
  · simp
  · simp
    grind
  · simp
  · simp

theorem NamesChannel.name_eq (h : NamesChannel spec t name) (h' : NamesChannel spec t' name') : name = name' := by
  have hlast : ∀ {t name}, NamesChannel spec t name → (Text.split '.' spec).getLast? = some name := by
    intro t name h
    rcases namesChannel_iff.mp h with ⟨label, hparts, -⟩ | ⟨location, label, hparts, -, -⟩ <;> simp [hparts]
  exact Option.some.inj ((hlast h).symm.trans (hlast h'))

theorem matchesOf_nodup (spec : String) (t : Thing) : (matchesOf spec (Text.split '.' spec) t).Nodup := by
  have hone : ∀ (p : Prop) [Decidable p] (r : Reference), (if p then [r] else []).Nodup := by
    intro p _ r
    split <;> simp
  match hparts : Text.split '.' spec with
  | [first, second] =>
    have hne : spec ≠ second := (split_eq_pair_iff.mp hparts).ne_second
    simp only [matchesOf]
    by_cases hwhole : t.label = some spec
    · have hsecond : ¬(t.location = some first ∧ t.label = some second) := by simp [hwhole, hne]
      rw [if_pos hwhole, if_neg hsecond, List.nil_append, List.singleton_append, List.nodup_cons]
      exact ⟨by split <;> simp, hone _ _⟩
    · rw [if_neg hwhole, List.nil_append]
      exact List.nodup_append.mpr ⟨hone _ _, hone _ _, by split <;> split <;> simp⟩
  | [location, label, name] =>
    simp only [matchesOf]
    exact List.nodup_append.mpr ⟨hone _ _, hone _ _, by split <;> split <;> simp⟩
  | [] | [_] | _ :: _ :: _ :: _ :: _ =>
    simp only [matchesOf, List.append_nil]
    exact hone _ _

theorem map_ref_filterMap_describe? (c : Catalog) (rs : List Reference) :
    (rs.filterMap c.describe?).map (·.ref) = rs.filter (c.describe? · |>.isSome) := by
  induction rs with
  | nil => rfl
  | cons r rest ih =>
    cases hd : c.describe? r with
    | none => simp [hd, ih]
    | some d => simp [hd, ih, ref_of_describe? hd]

theorem disjoint_matchesOf (h : t.uid ≠ t'.uid) :
    (matchesOf spec (Text.split '.' spec) t).Disjoint (matchesOf spec (Text.split '.' spec) t') := by
  intro r hr hr'
  rcases mem_matchesOf_iff.mp hr with ⟨-, rfl⟩ | ⟨name, hname, rfl⟩
  · rcases mem_matchesOf_iff.mp hr' with ⟨-, heq⟩ | ⟨name', -, heq⟩
    · exact h (congrArg Reference.id heq)
    · cases heq
  · rcases mem_matchesOf_iff.mp hr' with ⟨-, heq⟩ | ⟨name', hname', heq⟩
    · cases heq
    · rw [hname.name_eq hname', Reference.mk.injEq, channelUid_left_inj] at heq
      exact h heq.2

theorem appendNew_eq_append {found ds : List Description} (h : ((found ++ ds).map (·.ref)).Nodup) :
    appendNew found ds = found ++ ds := by
  induction ds generalizing found with
  | nil => simp [appendNew]
  | cons d rest ih =>
    have hnew : found.any (·.ref == d.ref) = false := by
      rw [List.map_append, List.nodup_append] at h
      simp only [List.any_eq_false, beq_iff_eq]
      intro e he heq
      exact h.2.2 _ (List.mem_map_of_mem he) d.ref (by simp) heq
    have hrest := @ih (found ++ [d]) (by simpa using h)
    rw [appendNew, hnew]
    simpa using hrest

theorem mem_groupOf_iff (h : c.Consistent) :
    d ∈ c.groupOf spec t ↔ d.ref ∈ matchesOf spec (Text.split '.' spec) t ∧ c.Current d :=
  h.mem_filterMap_describe?_iff

theorem current_channel_iff {uid : String} : d.ref = ⟨.channel, uid⟩ ∧ c.Current d ↔ ∃ channel ∈ c.channels,
    channel.uid = uid ∧ ∃ owner ∈ c.things, channel.thing = owner.uid ∧ d = channel.description owner := by
  obtain ⟨ref, location, label⟩ := d
  constructor
  · rintro ⟨rfl, channel, hchannel, huid, owner, howner, hthing, rfl, rfl⟩
    exact ⟨channel, hchannel, huid, owner, howner, hthing.symm, by rw [Channel.description, huid]⟩
  · rintro ⟨channel, hchannel, rfl, owner, howner, hthing, hd⟩
    cases hd
    exact ⟨rfl, channel, hchannel, rfl, owner, howner, hthing.symm, rfl, rfl⟩

/-- What is found for the things one after the other is all that a label names: nothing comes twice, so nothing
is left out. -/
theorem Consistent.labelled_eq (h : c.Consistent) (spec : String) :
    c.labelled spec = c.things.flatMap (c.groupOf spec) := by
  have hpoints : (c.things.flatMap (matchesOf spec (Text.split '.' spec))).Nodup := by
    refine List.nodup_flatMap.mpr ⟨fun t _ => matchesOf_nodup spec t, ?_⟩
    exact (List.pairwise_map.mp h.things_nodup).imp fun hne => disjoint_matchesOf hne
  have hrefs : (((c.things.flatMap (matchesOf spec (Text.split '.' spec))).filterMap c.describe?).map
      (·.ref)).Nodup := by
    rw [map_ref_filterMap_describe?]
    exact hpoints.filter _
  rw [labelled, appendNew_eq_append hrefs, List.nil_append, List.filterMap_flatMap]
  rfl

namespace Consistent

variable (h : c.Consistent)

include h

theorem eq_of_uid (ht : t ∈ c.things) (ht' : t' ∈ c.things) (huid : t.uid = t'.uid) : t = t' :=
  List.inj_on_of_nodup_map h.things_nodup ht ht' huid

theorem current_thing_iff (ht : t ∈ c.things) : d.ref = ⟨.thing, t.uid⟩ ∧ c.Current d ↔ d = t.description := by
  obtain ⟨ref, location, label⟩ := d
  constructor
  · rintro ⟨rfl, t', ht', huid, rfl, rfl⟩
    cases h.eq_of_uid ht' ht huid
    rfl
  · intro hd
    cases hd
    exact ⟨rfl, t, ht, rfl, rfl, rfl⟩

theorem mem_groupOf (ht : t ∈ c.things) : d ∈ c.groupOf spec t ↔ c.Names spec t d ∨ c.Borrows spec t d := by
  rw [mem_groupOf_iff h, mem_matchesOf_iff]
  constructor
  · rintro ⟨⟨hlabel, href⟩ | ⟨name, hname, href⟩, hcurrent⟩
    · exact .inl (.inl ⟨hlabel, (h.current_thing_iff ht).mp ⟨href, hcurrent⟩⟩)
    · obtain ⟨channel, hchannel, huid, owner, howner, hthing, rfl⟩ := current_channel_iff.mp ⟨href, hcurrent⟩
      by_cases hsame : owner.uid = t.uid
      · cases h.eq_of_uid howner ht hsame
        have hchannelName : channel.name = name := by
          have hnamed := h.named channel hchannel
          rw [huid, hthing, channelUid_right_inj] at hnamed
          exact hnamed.symm
        exact .inl (.inr ⟨channel, hchannel, hthing, hchannelName ▸ hname, rfl⟩)
      · exact .inr ⟨channel, hchannel, owner, howner, hthing, hsame, rfl, name, hname, huid⟩
  · rintro ((⟨hlabel, rfl⟩ | ⟨channel, hchannel, hthing, hname, rfl⟩) |
      ⟨channel, hchannel, owner, howner, hthing, -, rfl, name, hname, huid⟩)
    · obtain ⟨href, hcurrent⟩ := (h.current_thing_iff ht).mpr rfl
      exact ⟨.inl ⟨hlabel, href⟩, hcurrent⟩
    · have huid : channel.uid = channelUid t.uid channel.name := hthing ▸ h.named channel hchannel
      obtain ⟨href, hcurrent⟩ := current_channel_iff.mpr ⟨channel, hchannel, huid, t, ht, hthing, rfl⟩
      exact ⟨.inr ⟨channel.name, hname, href⟩, hcurrent⟩
    · obtain ⟨href, hcurrent⟩ := current_channel_iff.mpr ⟨channel, hchannel, huid, owner, howner, hthing, rfl⟩
      exact ⟨.inr ⟨name, hname, href⟩, hcurrent⟩

theorem continues_of_borrows (hd : c.Borrows spec t d) :
    ∃ owner ∈ c.things, Continues owner.uid t.uid ∨ Continues t.uid owner.uid := by
  obtain ⟨channel, hchannel, owner, howner, hthing, hother, -, name, -, huid⟩ := hd
  rw [h.named channel hchannel, hthing, channelUid_eq_channelUid_iff] at huid
  rcases huid with ⟨hsame, -⟩ | ⟨rest, hcontinues, -⟩ | ⟨rest, hcontinues, -⟩
  · exact absurd hsame hother
  · exact ⟨owner, howner, .inr ⟨rest, hcontinues⟩⟩
  · exact ⟨owner, howner, .inl ⟨rest, hcontinues⟩⟩

end Consistent

/-- Whatever has been registered and removed, the devices that a label finds come thing by thing, and none comes
twice. For a thing they are the devices that the label names and the channels that the thing borrows, which belong
to others. It borrows nothing if its identifier does not go on after that of another thing, and no other goes on
after its own. -/
theorem devices_of_label (ops : List Operation) (spec : String) :
    let c := run {} ops
    c.labelled spec = c.things.flatMap (c.groupOf spec) ∧ ((c.labelled spec).map (·.ref)).Nodup ∧
      ∀ t ∈ c.things, (∀ d, d ∈ c.groupOf spec t ↔ c.Names spec t d ∨ c.Borrows spec t d) ∧
        ((∀ other ∈ c.things, ¬Continues other.uid t.uid ∧ ¬Continues t.uid other.uid) →
          ∀ d, d ∈ c.groupOf spec t ↔ c.Names spec t d) := by
  intro c
  have hc : c.Consistent := consistent_empty.run ops
  refine ⟨hc.labelled_eq spec, nodup_appendNew List.nodup_nil, fun t ht => ?_⟩
  refine ⟨fun d => hc.mem_groupOf ht, fun hapart d => ?_⟩
  rw [hc.mem_groupOf ht, or_iff_left]
  intro hborrows
  obtain ⟨owner, howner, hcontinues⟩ := hc.continues_of_borrows hborrows
  obtain ⟨hafter, hbefore⟩ := hapart owner howner
  exact hcontinues.elim hafter hbefore

example : ((run {} [.addThing "roof" (some "Hall.Lamp") none none, .addThing "hub" (some "Hall") none none,
    .addChannel "hub" "Lamp" [.onOff] false, .addThing "desk" (some "Lamp") (some "Hall") none]).labelled
    "Hall.Lamp").map (·.ref.id) = ["roof", "hub:Lamp", "desk"] := by decide +kernel

def hallOps : List Operation :=
  [.addThing "hub" (some "Hall") none none, .addThing "hub:lamp" (some "Lamp") none none,
    .addChannel "hub:lamp" "power" [.onOff] false]

/-- So a label that names no device, as the thing in the hall has no channels, finds the channel of the lamp. -/
theorem label_finds_borrowed_channel :
    let c := run {} hallOps
    let power : Description := ⟨⟨.channel, "hub:lamp:power"⟩, none, some "Lamp"⟩
    c.labelled "Hall.lamp:power" = [power] ∧ c.channelsOf "hub" = [] ∧
      ∀ t ∈ c.things, ¬c.Names "Hall.lamp:power" t power := by
  intro c power
  refine ⟨by decide +kernel, by decide +kernel, fun t _ hnames => ?_⟩
  have hparts : Text.split '.' "Hall.lamp:power" = ["Hall", "lamp:power"] := by decide +kernel
  have hchannels : ∀ channel ∈ c.channels, channel.name = "power" := by decide +kernel
  rcases hnames with ⟨-, hthing⟩ | ⟨channel, hchannel, -, hname, -⟩
  · simp [Thing.description, power] at hthing
  · rw [hchannels channel hchannel, namesChannel_iff, hparts] at hname
    simp at hname

end Catalog
end Domotics
