import Domotics.Proofs.Resolution.Grounded

/-!
Identifiers of things and channels. The identifier of a channel is put together from that of its thing and a
name, and can be that of another thing as well. A new thing takes no identifier that is in use, but a new
channel minds other channels only. By its identifier every thing is found, and every channel that shares its
identifier with no thing.
-/

namespace Domotics

namespace Catalog

/-- No identifier is that of a thing and of a channel. -/
def Apart (c : Catalog) : Prop := ∀ t ∈ c.things, ∀ channel ∈ c.channels, t.uid ≠ channel.uid

/-- Whether an operation registers no channel under the identifier of a thing. -/
def spares (c : Catalog) : Operation → Bool
  | .addChannel thing name accepts isDefault =>
    !c.grants (.addChannel thing name accepts isDefault) || (c.thing? (channelUid thing name)).isNone
  | _ => true

def spared (c : Catalog) : List Operation → Bool
  | [] => true
  | op :: rest => c.spares op && (c.perform op).spared rest

section

variable {c c' : Catalog} {t : Thing} {channel : Channel}

theorem apart_empty : Apart {} := by simp [Apart]

theorem Apart.addThing {uid : String} {label location type : Option String} (h : c.Apart)
    (hadd : c.addThing uid label location type = .ok (t, c')) : c'.Apart := by
  obtain ⟨-, hfree, rfl, rfl⟩ := addThing_eq_ok hadd
  intro t ht channel hc
  rcases List.mem_append.mp ht with ht | ht
  · exact h t ht channel hc
  · cases List.mem_singleton.mp ht
    exact (channel?_eq_none_iff.mp hfree channel hc).symm

theorem Apart.addChannel_iff {thing name : String} {accepts : List ValueType} {isDefault : Bool}
    (h : c.Apart) (hadd : c.addChannel thing name accepts isDefault = .ok (channel, c')) :
    c'.Apart ↔ c.thing? (channelUid thing name) = none := by
  obtain ⟨-, -, rfl, rfl⟩ := addChannel_eq_ok hadd
  rw [thing?_eq_none_iff]
  constructor
  · intro hapart t ht
    simpa using hapart _ (List.mem_map_of_mem ht) _ (List.mem_append_right _ (List.mem_singleton_self _))
  · intro hfree t ht channel hc
    obtain ⟨t, hmem, rfl⟩ := List.mem_map.mp ht
    rw [uid_attach]
    rcases List.mem_append.mp hc with hc | hc
    · exact h t hmem channel hc
    · cases List.mem_singleton.mp hc
      exact hfree t hmem

theorem Apart.removeThing (h : c.Apart) (uid : String) : (c.removeThing uid).2.Apart := by
  rw [Catalog.removeThing]
  split
  · exact h
  · exact fun t ht channel hc => h t (List.mem_of_mem_filter ht) channel (List.mem_of_mem_filter hc)

theorem Apart.perform_iff (h : c.Apart) (op : Operation) : (c.perform op).Apart ↔ c.spares op = true := by
  cases op with
  | addThing => exact iff_of_true (after_keeps h fun _ _ hadd => h.addThing hadd) rfl
  | addChannel thing name accepts isDefault =>
    rw [perform, spares, grants]
    cases hadd : c.addChannel thing name accepts isDefault with
    | error fault => exact iff_of_true h rfl
    | ok added => simp [after, Except.isOk, Except.toBool, h.addChannel_iff hadd]
  | addItem =>
    refine iff_of_true (after_keeps h fun _ _ hadd => ?_) rfl
    rw [addItem_eq_ok hadd]
    exact h
  | removeThing uid => exact iff_of_true (h.removeThing uid) rfl

/-- Identifiers stay apart throughout some operations just if none of these registers a channel under that of
a thing. -/
theorem Apart.throughout_iff (h : c.Apart) (ops : List Operation) :
    (∀ earlier, earlier <+: ops → (c.run earlier).Apart) ↔ c.spared ops = true := by
  induction ops generalizing c with
  | nil => exact iff_of_true (fun earlier hearlier => by rwa [List.prefix_nil.mp hearlier]) rfl
  | cons op rest ih =>
    rw [spared, Bool.and_eq_true, ← h.perform_iff op]
    constructor
    · intro hall
      have hfirst : (c.perform op).Apart := hall [op] (List.prefix_append [op] rest)
      exact ⟨hfirst, (ih hfirst).mp fun earlier hearlier =>
        hall (op :: earlier) (List.prefix_cons_inj op |>.mpr hearlier)⟩
    · rintro ⟨hfirst, hrest⟩ earlier hearlier
      rcases List.prefix_cons_iff.mp hearlier with rfl | ⟨later, rfl, hlater⟩
      · exact h
      · exact (ih hfirst).mpr hrest later hlater

end

end Catalog

namespace Resolution

variable {a : AliasRegistry} {c : Catalog} {uid : String} {type : Option ValueType}

/-- A text that is neither an alias nor the name of an item is taken for the identifier of a thing first, and
for that of a channel then. -/
theorem ofText_of_describe? {d : Description} (halias : a.lookup? uid = none) (hitem : c.item? uid = none)
    (htype : type ≠ some .status)
    (hd : c.describe? ⟨.thing, uid⟩ = some d ∨
      c.describe? ⟨.thing, uid⟩ = none ∧ c.describe? ⟨.channel, uid⟩ = some d) :
    ofText a c uid type = .ok (found d) := by
  have hnone : c.describe? ⟨.item, uid⟩ = none := by simp [Catalog.describe?, hitem]
  have hexact : exact c d type = found d := if_neg fun h => htype h.1
  rcases hd with hd | ⟨hthing, hd⟩
  · simp only [ofText, halias, byName, hnone, hd, hexact]
  · simp only [ofText, halias, byName, hnone, hthing, hd, hexact]

end Resolution

namespace Resolver

/-- A resolver over a catalog that begins empty, after any operations. By its identifier every thing is found,
and every channel that shares it with no thing, as long as the identifier is neither an alias nor the name of
an item and no connection is asked for. Identifiers of things and of channels stay apart throughout if, and
only if, no channel is registered under the identifier of a thing. -/
theorem found_by_identifier (a : AliasRegistry) (ops : List Operation) :
    let r := (ofSources {} a).run ops
    (∀ (uid : String) (type : Option ValueType),
      r.aliases.lookup? uid = none → r.catalog.item? uid = none → type ≠ some .status →
        (∀ t ∈ r.catalog.things, t.uid = uid →
          (r.lookup (.text uid) type).2 = .ok (.found ⟨⟨.thing, uid⟩, t.location, t.label⟩)) ∧
        ∀ channel ∈ r.catalog.channels, channel.uid = uid → (∀ t ∈ r.catalog.things, t.uid ≠ uid) →
          ∃ owner ∈ r.catalog.things, owner.uid = channel.thing ∧
            (r.lookup (.text uid) type).2 =
              .ok (.found ⟨⟨.channel, uid⟩, owner.location, owner.label⟩)) ∧
    ((∀ earlier, earlier <+: ops → ((ofSources {} a).run earlier).catalog.Apart) ↔
      Catalog.spared {} (ops.filterMap (·.onCatalog?)) = true) := by
  intro r
  have hcoherent : r.Coherent := (coherent_of_fresh {} a).run ops
  have hconsistent : r.catalog.Consistent := by
    rw [show r.catalog = _ from catalog_run _ ops]
    exact Catalog.consistent_empty.run _
  refine ⟨fun uid type halias hitem htype => ?_, ?_⟩
  · have hlookup : (r.lookup (.text uid) type).2 = Resolution.ofText r.aliases r.catalog uid type :=
      (hcoherent.lookup (.text uid) type).2
    rw [hlookup]
    refine ⟨fun t ht huid => ?_, fun channel hchannel huid hfree => ?_⟩
    · have hsome := hconsistent.describe?_of_current (d := ⟨⟨.thing, uid⟩, t.location, t.label⟩)
        ⟨t, ht, huid, rfl, rfl⟩
      exact Resolution.ofText_of_describe? halias hitem htype (.inl hsome)
    · obtain ⟨owner, howner, hthing⟩ := hconsistent.owned channel hchannel
      have hnone : r.catalog.describe? ⟨.thing, uid⟩ = none := by
        simp [Catalog.describe?, Catalog.thing?_eq_none_iff.mpr hfree]
      have hsome := hconsistent.describe?_of_current (d := ⟨⟨.channel, uid⟩, owner.location, owner.label⟩)
        ⟨channel, hchannel, huid, owner, howner, hthing, rfl, rfl⟩
      exact ⟨owner, howner, hthing,
        Resolution.ofText_of_describe? halias hitem htype (.inr ⟨hnone, hsome⟩)⟩
  · rw [← Catalog.apart_empty.throughout_iff]
    constructor
    · intro hall changes hchanges
      obtain ⟨earlier, hearlier, rfl⟩ := List.prefix_filterMap_iff.mp hchanges
      have hapart := hall earlier hearlier
      rwa [catalog_run] at hapart
    · intro hall earlier hearlier
      rw [catalog_run]
      exact hall _ (hearlier.filterMap _)

/-- A hub with a channel for a lamp, and the lamp as a thing of its own. -/
def hubThing (uid : String) : Operation := .catalog (.addThing uid none (some "Hall") none)

def hubLamp : Operation := .catalog (.addChannel "hub" "lamp" [.onOff] false)

/-- The channel comes first, and the lamp is refused. -/
theorem found_by_identifier_hub :
    let ops := [hubThing "hub", hubLamp, hubThing "hub:lamp"]
    let r := (ofSources {} {}).run ops
    (r.lookup (.text "hub") none).2 = .ok (.found ⟨⟨.thing, "hub"⟩, some "Hall", none⟩) ∧
      (r.lookup (.text "hub:lamp") (some .onOff)).2 =
        .ok (.found ⟨⟨.channel, "hub:lamp"⟩, some "Hall", none⟩) ∧
      ∀ earlier, earlier <+: ops → ((ofSources {} {}).run earlier).catalog.Apart := by
  intro ops r
  obtain ⟨hfound, hapart⟩ := found_by_identifier {} ops
  have hthings : r.catalog.things = [⟨"hub", none, some "Hall", none, ["hub:lamp"]⟩] := by decide +kernel
  have hchannels : r.catalog.channels = [⟨"hub:lamp", "hub", "lamp", [.onOff], false⟩] := by decide +kernel
  have hfree : ∀ t ∈ r.catalog.things, t.uid ≠ "hub:lamp" := by
    rw [hthings]
    simp
  obtain ⟨hhub, -⟩ := hfound "hub" none rfl rfl (by decide)
  obtain ⟨-, hlamp⟩ := hfound "hub:lamp" (some .onOff) rfl rfl (by decide)
  obtain ⟨owner, howner, -, hlookup⟩ :=
    hlamp _ (hchannels ▸ List.mem_singleton_self _) rfl hfree
  rw [hthings] at howner
  cases List.mem_singleton.mp howner
  exact ⟨hhub _ (hthings ▸ List.mem_singleton_self _) rfl, hlookup, hapart.mpr (by decide +kernel)⟩

/-- The lamp comes first, and the channel is registered under its identifier but is not found by it. -/
theorem identifier_shared :
    let r := (ofSources {} {}).run [hubThing "hub:lamp", hubThing "hub", hubLamp]
    (∃ t ∈ r.catalog.things, ∃ channel ∈ r.catalog.channels,
      t.uid = "hub:lamp" ∧ channel.uid = "hub:lamp") ∧
      (r.lookup (.text "hub:lamp") none).2 = .ok (.found ⟨⟨.thing, "hub:lamp"⟩, some "Hall", none⟩) :=
  ⟨by decide +kernel, by rfl⟩

end Resolver
end Domotics
