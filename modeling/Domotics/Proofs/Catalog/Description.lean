import Domotics.Proofs.Catalog.Ownership

/-!
What a catalog says of its devices. In a consistent catalog a description is of a registered device and shows
the location and the label that its thing has at present; every channel has a thing, and every registered
device accepts something that can be named.
-/

namespace Domotics.Catalog

/-- A description of a registered device that shows the present location and label of its thing. An item has
neither. -/
def Current (c : Catalog) (d : Description) : Prop :=
  match d.ref.kind with
  | .item => (∃ item ∈ c.items, item.name = d.ref.id) ∧ d.location = none ∧ d.label = none
  | .thing => ∃ t ∈ c.things, t.uid = d.ref.id ∧ d.location = t.location ∧ d.label = t.label
  | .channel => ∃ channel ∈ c.channels, channel.uid = d.ref.id ∧
    ∃ t ∈ c.things, t.uid = channel.thing ∧ d.location = t.location ∧ d.label = t.label

variable {c : Catalog} {r : Reference} {d : Description}

theorem item?_eq_some {name : String} {item : Item} (h : c.item? name = some item) :
    item ∈ c.items ∧ item.name = name :=
  ⟨List.mem_of_find?_eq_some h, by simpa using List.find?_some h⟩

theorem exists_item? {item : Item} (h : item ∈ c.items) : ∃ found, c.item? item.name = some found := by
  rw [← Option.ne_none_iff_exists']
  intro hnone
  exact List.find?_eq_none.mp hnone item h (by simp)

@[simp] theorem ref_of_describe? (h : c.describe? r = some d) : d.ref = r := by
  rw [describe?] at h
  split at h <;> obtain ⟨_, _, rfl⟩ := Option.map_eq_some_iff.mp h <;> rfl

namespace Consistent

variable (h : c.Consistent)

include h

theorem owner_of_channel? {uid : String} {channel : Channel} (hchannel : c.channel? uid = some channel) :
    ∃ t, c.thing? channel.thing = some t := by
  obtain ⟨hmem, -⟩ := h.channel?_eq_some_iff.mp hchannel
  obtain ⟨t, ht, huid⟩ := h.owned channel hmem
  exact ⟨t, h.thing?_eq_some_iff.mpr ⟨ht, huid⟩⟩

theorem describe?_eq_some_iff : c.describe? r = some d ↔ d.ref = r ∧ c.Current d := by
  obtain ⟨kind, id⟩ := r
  obtain ⟨ref, location, label⟩ := d
  cases kind with
  | item =>
    rw [describe?, Option.map_eq_some_iff]
    constructor
    · rintro ⟨item, hitem, heq⟩
      cases heq
      exact ⟨rfl, ⟨item, item?_eq_some hitem⟩, rfl, rfl⟩
    · rintro ⟨rfl, ⟨item, hitem, rfl⟩, rfl, rfl⟩
      obtain ⟨found, hfound⟩ := exists_item? hitem
      exact ⟨found, hfound, rfl⟩
  | thing =>
    rw [describe?, Option.map_eq_some_iff]
    constructor
    · rintro ⟨t, ht, heq⟩
      cases heq
      obtain ⟨hmem, huid⟩ := h.thing?_eq_some_iff.mp ht
      exact ⟨rfl, t, hmem, huid, rfl, rfl⟩
    · rintro ⟨rfl, t, ht, huid, rfl, rfl⟩
      exact ⟨t, h.thing?_eq_some_iff.mpr ⟨ht, huid⟩, rfl⟩
  | channel =>
    rw [describe?, Option.map_eq_some_iff]
    constructor
    · rintro ⟨channel, hchannel, heq⟩
      obtain ⟨t, ht⟩ := h.owner_of_channel? hchannel
      simp only [ht, Option.bind_some] at heq
      cases heq
      obtain ⟨hmem, huid⟩ := h.channel?_eq_some_iff.mp hchannel
      obtain ⟨htmem, htuid⟩ := h.thing?_eq_some_iff.mp ht
      exact ⟨rfl, channel, hmem, huid, t, htmem, htuid, rfl, rfl⟩
    · rintro ⟨rfl, channel, hmem, huid, t, htmem, htuid, rfl, rfl⟩
      have ht := h.thing?_eq_some_iff.mpr ⟨htmem, htuid⟩
      exact ⟨channel, h.channel?_eq_some_iff.mpr ⟨hmem, huid⟩, by simp [ht]⟩

theorem current_of_describe? (hd : c.describe? r = some d) : c.Current d :=
  (h.describe?_eq_some_iff.mp hd).2

theorem describe?_of_current (hd : c.Current d) : c.describe? d.ref = some d :=
  h.describe?_eq_some_iff.mpr ⟨rfl, hd⟩

theorem mem_filterMap_describe?_iff {refs : List Reference} :
    d ∈ refs.filterMap c.describe? ↔ d.ref ∈ refs ∧ c.Current d := by
  rw [List.mem_filterMap]
  constructor
  · rintro ⟨r, hr, hd⟩
    obtain ⟨rfl, hcurrent⟩ := h.describe?_eq_some_iff.mp hd
    exact ⟨hr, hcurrent⟩
  · rintro ⟨hr, hcurrent⟩
    exact ⟨d.ref, hr, h.describe?_of_current hcurrent⟩

theorem exists_thingOf? (hd : c.Current d) (hitem : d.ref.kind ≠ .item) :
    ∃ t, c.thingOf? d.ref = some t ∧ c.Current t ∧ t.ref.kind = .thing := by
  rw [thingOf?]
  cases hkind : d.ref.kind with
  | item => exact absurd hkind hitem
  | thing => exact ⟨d, h.describe?_of_current hd, hd, hkind⟩
  | channel =>
    simp only [Current, hkind] at hd
    obtain ⟨channel, hmem, huid, t, htmem, htuid, -, -⟩ := hd
    let owner : Description := ⟨⟨.thing, channel.thing⟩, t.location, t.label⟩
    have howner : c.Current owner := ⟨t, htmem, htuid, rfl, rfl⟩
    have hfound := h.channel?_eq_some_iff.mpr ⟨hmem, huid⟩
    exact ⟨owner, by simpa [hfound] using h.describe?_of_current howner, howner, rfl⟩

theorem exists_accepted? (hd : c.Current d) : ∃ accepted, c.accepted? d.ref = some accepted := by
  rw [Current] at hd
  rw [accepted?]
  cases hkind : d.ref.kind with
  | item =>
    simp only [hkind] at hd
    obtain ⟨⟨item, hitem, hname⟩, -⟩ := hd
    obtain ⟨found, hfound⟩ := exists_item? hitem
    exact ⟨found.accepts, by simp [← hname, hfound]⟩
  | thing =>
    simp only [hkind] at hd
    obtain ⟨t, ht, huid, -⟩ := hd
    exact ⟨[.status], by simp [h.thing?_eq_some_iff.mpr ⟨ht, huid⟩]⟩
  | channel =>
    simp only [hkind] at hd
    obtain ⟨channel, hmem, huid, -⟩ := hd
    exact ⟨channel.accepts, by simp [h.channel?_eq_some_iff.mpr ⟨hmem, huid⟩]⟩

end Consistent

end Domotics.Catalog
