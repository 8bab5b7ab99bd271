import Domotics.Proofs.Resolution.Sources
import Mathlib.Data.List.Nodup

/-!
Which channels belong to which things. A catalog says so twice: a channel names its thing, and a thing lists
its channels. Whatever is registered and removed, and whether an operation is granted or not, both say the
same, no channel is without its thing, and a thing goes with its own channels and no others.
-/

namespace Domotics.Catalog

def run (c : Catalog) (ops : List Operation) : Catalog := ops.foldl perform c

/-- Whether an operation is granted: whether an addition registers something, and a removal finds its
thing. -/
def grants (c : Catalog) : Operation → Bool
  | .addThing uid label location type => (c.addThing uid label location type).isOk
  | .addChannel thing name accepts isDefault => (c.addChannel thing name accepts isDefault).isOk
  | .addItem name accepts channel => (c.addItem name accepts channel).isOk
  | .removeThing uid => (c.removeThing uid).1

def belonging (c : Catalog) (thing : String) : List Channel := c.channels.filter (·.thing == thing)

def without (c : Catalog) (uid : String) : Catalog :=
  { c with
    things := c.things.filter (·.uid != uid)
    channels := c.channels.filter (·.thing != uid)
    version := c.version + 1 }

/-- What remains of some channels after an operation: an addition puts its channel behind them, and a
removal takes those of its thing away. -/
def remain (c : Catalog) (channels : List Channel) : Operation → List Channel
  | .addChannel thing name accepts isDefault =>
    match c.addChannel thing name accepts isDefault with
    | .ok (channel, _) => channels ++ [channel]
    | .error _ => channels
  | .removeThing uid => channels.filter (·.thing != uid)
  | _ => channels

/-- The channels that were added in the course of some operations and not removed with their things, in the
order of the additions. -/
def standing (c : Catalog) (channels : List Channel) : List Operation → List Channel
  | [] => channels
  | op :: rest => (c.perform op).standing (c.remain channels op) rest

structure Consistent (c : Catalog) : Prop where
  things_nodup : (c.things.map (·.uid)).Nodup
  channels_nodup : (c.channels.map (·.uid)).Nodup
  named : ∀ channel ∈ c.channels, channel.uid = channelUid channel.thing channel.name
  owned : ∀ channel ∈ c.channels, ∃ t ∈ c.things, t.uid = channel.thing
  listed : ∀ t ∈ c.things, t.channels = (c.belonging t.uid).map (·.uid)

section

variable {c c' : Catalog} {uid label location type thing name : String} {t : Thing} {channel : Channel}

theorem find?_key_eq_some_iff {α : Type} {xs : List α} {key : α → String} (h : (xs.map key).Nodup)
    {k : String} {a : α} : xs.find? (key · == k) = some a ↔ a ∈ xs ∧ key a = k := by
  constructor
  · intro hfind
    exact ⟨List.mem_of_find?_eq_some hfind, by simpa using List.find?_some hfind⟩
  · rintro ⟨hmem, rfl⟩
    cases hfind : xs.find? (key · == key a) with
    | none => exact absurd (List.find?_eq_none.mp hfind a hmem) (by simp)
    | some b =>
      have hkey : key b = key a := by simpa using List.find?_some hfind
      rw [List.inj_on_of_nodup_map h (List.mem_of_find?_eq_some hfind) hmem hkey]

theorem nodup_map_append_singleton {α β : Type} {f : α → β} {xs : List α} {a : α}
    (h : (xs.map f).Nodup) (hnew : ∀ x ∈ xs, f x ≠ f a) : ((xs ++ [a]).map f).Nodup := by
  rw [List.map_append, List.map_singleton, List.nodup_append]
  refine ⟨h, List.nodup_singleton _, ?_⟩
  rintro _ hold _ hlast rfl
  obtain ⟨x, hx, heq⟩ := List.mem_map.mp hold
  exact hnew x hx (heq.trans (List.mem_singleton.mp hlast))

theorem thing?_eq_none_iff : c.thing? uid = none ↔ ∀ t ∈ c.things, t.uid ≠ uid := by
  simp [thing?]

theorem channel?_eq_none_iff : c.channel? uid = none ↔ ∀ channel ∈ c.channels, channel.uid ≠ uid := by
  simp [channel?]

theorem addThing_eq_ok {label location type : Option String}
    (h : c.addThing uid label location type = .ok (t, c')) :
    c.thing? uid = none ∧ c.channel? uid = none ∧ t = { uid, label, location, type } ∧
      c' = { c with things := c.things ++ [t], version := c.version + 1 } := by
  simp only [addThing] at h
  split_ifs at h with hempty htaken
  cases h
  simp only [Bool.or_eq_true, not_or, Bool.not_eq_true, Option.isSome_eq_false_iff,
    Option.isNone_iff_eq_none] at htaken
  exact ⟨htaken.1, htaken.2, rfl, rfl⟩

theorem addChannel_eq_ok {accepts : List ValueType} {isDefault : Bool}
    (h : c.addChannel thing name accepts isDefault = .ok (channel, c')) :
    (∃ t, c.thing? thing = some t) ∧ c.channel? (channelUid thing name) = none ∧
      channel = { uid := channelUid thing name, thing, name, accepts, isDefault } ∧
      c' = { c with
        things := c.things.map (attach thing (channelUid thing name))
        channels := c.channels ++ [channel]
        version := c.version + 1 } := by
  simp only [addChannel] at h
  split_ifs at h with hthing htaken
  cases h
  rw [Option.isNone_iff_eq_none, ← ne_eq, Option.ne_none_iff_exists'] at hthing
  rw [Bool.not_eq_true, Option.isSome_eq_false_iff, Option.isNone_iff_eq_none] at htaken
  exact ⟨hthing, htaken, rfl, rfl⟩

theorem addItem_eq_ok {accepts : List ValueType} {bound : Option String} {item : Item}
    (h : c.addItem name accepts bound = .ok (item, c')) :
    c' = { c with items := c.items ++ [item], version := c.version + 1 } := by
  simp only [addItem] at h
  split_ifs at h
  split at h
  · cases h
  · cases h
    rfl

@[simp] theorem uid_attach (thing uid : String) (t : Thing) : (attach thing uid t).uid = t.uid := by
  rw [attach]
  split <;> rfl

theorem channels_attach (thing uid : String) (t : Thing) :
    (attach thing uid t).channels = t.channels ++ if t.uid = thing then [uid] else [] := by
  rw [attach]
  split
  · rfl
  · rw [List.append_nil]

theorem after_of_not_isOk {α : Type} {r : Result (α × Catalog)} (h : r.isOk = false) : c.after r = c := by
  cases r with
  | error fault => rfl
  | ok added => cases h

theorem after_keeps {α : Type} {P : Catalog → Prop} {r : Result (α × Catalog)} (h : P c)
    (hadd : ∀ a c', r = .ok (a, c') → P c') : P (c.after r) := by
  match r with
  | .error _ => exact h
  | .ok (a, c') => exact hadd a c' rfl

theorem perform_of_not_grants {op : Operation} (h : c.grants op = false) : c.perform op = c := by
  cases op with
  | addThing | addChannel | addItem => exact after_of_not_isOk h
  | removeThing uid =>
    simp only [perform, grants] at h ⊢
    unfold removeThing at h ⊢
    split
    · rfl
    · next hthing => simp [hthing] at h

theorem consistent_empty : Consistent {} where
  things_nodup := List.nodup_nil
  channels_nodup := List.nodup_nil
  named := by simp
  owned := by simp
  listed := by simp

namespace Consistent

variable (h : c.Consistent)

include h

theorem thing?_eq_some_iff : c.thing? uid = some t ↔ t ∈ c.things ∧ t.uid = uid :=
  find?_key_eq_some_iff h.things_nodup

theorem channel?_eq_some_iff : c.channel? uid = some channel ↔ channel ∈ c.channels ∧ channel.uid = uid :=
  find?_key_eq_some_iff h.channels_nodup

theorem belonging_of_thing?_eq_none (hnone : c.thing? uid = none) : c.belonging uid = [] := by
  refine List.filter_eq_nil_iff.mpr fun channel hchannel hthing => ?_
  obtain ⟨t, ht, howner⟩ := h.owned channel hchannel
  exact thing?_eq_none_iff.mp hnone t ht (howner.trans (by simpa using hthing))

theorem channels_of_thing_nodup (ht : t ∈ c.things) : t.channels.Nodup := by
  rw [h.listed t ht]
  exact h.channels_nodup.sublist (List.filter_sublist.map _)

/-- The identifiers that a thing lists are those of its own channels. -/
theorem uid_mem_channels_iff (ht : t ∈ c.things) (hchannel : channel ∈ c.channels) :
    channel.uid ∈ t.channels ↔ channel.thing = t.uid := by
  rw [h.listed t ht, belonging, List.mem_map]
  constructor
  · rintro ⟨other, hother, huid⟩
    obtain ⟨hmem, hthing⟩ := List.mem_filter.mp hother
    rw [← List.inj_on_of_nodup_map h.channels_nodup hmem hchannel huid]
    simpa using hthing
  · intro hthing
    exact ⟨channel, List.mem_filter.mpr ⟨hchannel, by simpa using hthing⟩, rfl⟩

theorem channelsOf_eq (uid : String) : c.channelsOf uid = c.belonging uid := by
  rw [channelsOf]
  cases hthing : c.thing? uid with
  | none => exact (h.belonging_of_thing?_eq_none hthing).symm
  | some t =>
    obtain ⟨ht, rfl⟩ := h.thing?_eq_some_iff.mp hthing
    have hfound : ∀ channel ∈ c.belonging t.uid, c.channel? channel.uid = some channel := fun channel hc =>
      h.channel?_eq_some_iff.mpr ⟨List.mem_of_mem_filter hc, rfl⟩
    simp only
    rw [h.listed t ht, List.filterMap_map]
    exact (List.filterMap_congr hfound).trans List.filterMap_some

/-- A removal takes a thing and its own channels away, and nothing else. -/
theorem removeThing_eq (uid : String) :
    c.removeThing uid = if (c.thing? uid).isSome then (true, c.without uid) else (false, c) := by
  rw [removeThing]
  cases hthing : c.thing? uid with
  | none => rfl
  | some t =>
    obtain ⟨ht, rfl⟩ := h.thing?_eq_some_iff.mp hthing
    have hsame : c.channels.filter (fun channel => !t.channels.contains channel.uid) =
        c.channels.filter (·.thing != t.uid) := by
      refine List.filter_congr fun channel hchannel => ?_
      rw [Bool.eq_iff_iff]
      simp [h.uid_mem_channels_iff ht hchannel]
    simp only [Option.isSome_some, if_true, without, hsame]

theorem addThing {label location type : Option String}
    (hadd : c.addThing uid label location type = .ok (t, c')) : c'.Consistent := by
  obtain ⟨hthing, hchannel, rfl, rfl⟩ := addThing_eq_ok hadd
  have hbelonging : c.belonging uid = [] := h.belonging_of_thing?_eq_none hthing
  refine ⟨nodup_map_append_singleton h.things_nodup (thing?_eq_none_iff.mp hthing), h.channels_nodup,
    h.named, fun channel hc => ?_, fun t ht => ?_⟩
  · obtain ⟨t, ht, howner⟩ := h.owned channel hc
    exact ⟨t, List.mem_append_left _ ht, howner⟩
  · rcases List.mem_append.mp ht with ht | ht
    · exact h.listed t ht
    · cases List.mem_singleton.mp ht
      exact (congrArg (List.map (·.uid)) hbelonging).symm

theorem addChannel {accepts : List ValueType} {isDefault : Bool}
    (hadd : c.addChannel thing name accepts isDefault = .ok (channel, c')) : c'.Consistent := by
  obtain ⟨⟨owner, howner⟩, hfree, rfl, rfl⟩ := addChannel_eq_ok hadd
  obtain ⟨hmem, hthing⟩ := h.thing?_eq_some_iff.mp howner
  have huids : (c.things.map (attach thing (channelUid thing name))).map (·.uid) =
      c.things.map (·.uid) := by simp
  refine ⟨huids ▸ h.things_nodup,
    nodup_map_append_singleton h.channels_nodup (channel?_eq_none_iff.mp hfree), fun channel hc => ?_,
    fun channel hc => ?_, fun t ht => ?_⟩
  · rcases List.mem_append.mp hc with hc | hc
    · exact h.named channel hc
    · cases List.mem_singleton.mp hc
      rfl
  · have hregistered : ∃ t ∈ c.things, t.uid = channel.thing := by
      rcases List.mem_append.mp hc with hc | hc
      · exact h.owned channel hc
      · cases List.mem_singleton.mp hc
        exact ⟨owner, hmem, hthing⟩
    obtain ⟨t, ht, huid⟩ := hregistered
    exact ⟨_, List.mem_map_of_mem ht, (uid_attach ..).trans huid⟩
  · obtain ⟨t, hmem, rfl⟩ := List.mem_map.mp ht
    rw [channels_attach, h.listed t hmem, uid_attach, belonging, belonging, List.filter_append,
      List.map_append]
    by_cases hown : thing = t.uid
    · simp [hown]
    · simp [hown, Ne.symm hown]

theorem without (uid : String) : (c.without uid).Consistent := by
  refine ⟨?_, ?_, fun channel hc => ?_, fun channel hc => ?_, fun t ht => ?_⟩
  · exact h.things_nodup.sublist (List.filter_sublist.map _)
  · exact h.channels_nodup.sublist (List.filter_sublist.map _)
  · exact h.named channel (List.mem_of_mem_filter hc)
  · obtain ⟨hmem, hstays⟩ := List.mem_filter.mp hc
    obtain ⟨t, ht, howner⟩ := h.owned channel hmem
    exact ⟨t, List.mem_filter.mpr ⟨ht, by rwa [howner]⟩, howner⟩
  · obtain ⟨hmem, hstays⟩ := List.mem_filter.mp ht
    have hothers : (c.without uid).belonging t.uid = c.belonging t.uid := by
      rw [belonging, belonging, Catalog.without, List.filter_filter]
      refine List.filter_congr fun channel _ => ?_
      cases hown : channel.thing == t.uid with
      | false => rfl
      | true => rw [beq_iff_eq.mp hown, hstays]; rfl
    rw [hothers]
    exact h.listed t hmem

theorem perform (op : Operation) : (c.perform op).Consistent := by
  cases op with
  | addThing => exact after_keeps h fun _ _ hadd => h.addThing hadd
  | addChannel => exact after_keeps h fun _ _ hadd => h.addChannel hadd
  | addItem =>
    refine after_keeps h fun _ _ hadd => ?_
    rw [addItem_eq_ok hadd]
    exact ⟨h.things_nodup, h.channels_nodup, h.named, h.owned, h.listed⟩
  | removeThing uid =>
    rw [Catalog.perform, h.removeThing_eq]
    split
    · exact h.without uid
    · exact h

theorem channels_perform (op : Operation) : (c.perform op).channels = c.remain c.channels op := by
  cases op with
  | addThing =>
    refine after_keeps (P := fun c' => c'.channels = c.channels) rfl fun _ _ hadd => ?_
    obtain ⟨-, -, -, rfl⟩ := addThing_eq_ok hadd
    rfl
  | addChannel thing name accepts isDefault =>
    rw [Catalog.perform, remain]
    cases hadd : c.addChannel thing name accepts isDefault with
    | error fault => rfl
    | ok added =>
      obtain ⟨-, -, -, hc'⟩ := addChannel_eq_ok hadd
      exact congrArg Catalog.channels hc'
  | addItem =>
    refine after_keeps (P := fun c' => c'.channels = c.channels) rfl fun _ _ hadd => ?_
    rw [addItem_eq_ok hadd]
  | removeThing uid =>
    rw [Catalog.perform, h.removeThing_eq, remain]
    cases hthing : c.thing? uid with
    | some t => rfl
    | none =>
      refine (List.filter_eq_self.mpr fun channel hc => ?_).symm
      obtain ⟨t, ht, howner⟩ := h.owned channel hc
      have hother := thing?_eq_none_iff.mp hthing t ht
      simpa [← howner] using hother

theorem run (ops : List Operation) : (c.run ops).Consistent := by
  induction ops generalizing c with
  | nil => exact h
  | cons op rest ih => exact ih (h.perform op)

theorem channels_run (ops : List Operation) : (c.run ops).channels = c.standing c.channels ops := by
  induction ops generalizing c with
  | nil => rfl
  | cons op rest ih =>
    rw [standing, ← h.channels_perform op]
    exact ih (h.perform op)

end Consistent

end

/-- Whatever has been added and removed, things and channels say the same of who belongs to whom: every thing
lists its own channels, each once and in the order in which they were added, and takes them along when it is
removed, and an operation that is refused changes nothing. -/
theorem things_and_channels_agree (ops : List Operation) :
    let c := run {} ops
    c.Consistent ∧ (∀ t ∈ c.things, t.channels.Nodup) ∧ c.channels = standing {} [] ops ∧
      (∀ uid, c.channelsOf uid = c.belonging uid) ∧
      (∀ uid, c.removeThing uid = if (c.thing? uid).isSome then (true, c.without uid) else (false, c)) ∧
      ∀ op, c.grants op = false → c.perform op = c := by
  intro c
  have hc : c.Consistent := consistent_empty.run ops
  exact ⟨hc, fun _ => hc.channels_of_thing_nodup, consistent_empty.channels_run ops, hc.channelsOf_eq,
    hc.removeThing_eq, fun _ => perform_of_not_grants⟩

/-- A radio is removed and comes back with its channels in another order. A hub that came in between cannot have
a channel under the identifier of one of them. -/
def radioOps : List Operation :=
  let channel (thing name : String) : Operation := .addChannel thing name [.onOff] false
  let thing (uid : String) : Operation := .addThing uid none none none
  [thing "radio", channel "radio" "hub:power", channel "radio" "volume", thing "radio:hub:power",
    .removeThing "radio", thing "radio:hub", thing "radio", channel "radio" "volume",
    channel "radio" "hub:power"]

theorem things_and_channels_agree_radio :
    let c := run {} radioOps
    let again : Operation := .addChannel "radio:hub" "power" [.onOff] false
    c.grants again = false ∧ c.perform again = c ∧
      (c.channelsOf "radio").map (·.uid) = ["radio:volume", "radio:hub:power"] ∧
      c.channelsOf "radio:hub" = [] ∧ (∀ t ∈ c.things, t.channels.Nodup) := by
  intro c again
  obtain ⟨-, hnodup, -, hchannels, -, hrefused⟩ := things_and_channels_agree radioOps
  have hagain : c.grants again = false := by decide +kernel
  refine ⟨hagain, hrefused again hagain, ?_, ?_, hnodup⟩
  · rw [hchannels]
    decide +kernel
  · rw [hchannels]
    decide +kernel

end Domotics.Catalog
