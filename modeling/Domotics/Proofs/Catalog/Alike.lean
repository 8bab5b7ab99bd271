import Domotics.Proofs.Catalog.Description
import Mathlib.Data.Option.Basic

/-!
Catalogs that hold the same devices. The order in which devices were registered differs, and so does what was
removed in between; under every name both hold records that differ in nothing but the order of a thing's
channels and of the accepted types. Such catalogs describe every device alike.
-/

namespace Domotics

abbrev SameMembers {α : Type} (xs ys : List α) : Prop := xs ⊆ ys ∧ ys ⊆ xs

/-- Every element of the one list has a partner in the other. -/
def Paired {α : Type} (rel : α → α → Prop) (xs ys : List α) : Prop :=
  (∀ x ∈ xs, ∃ y ∈ ys, rel x y) ∧ ∀ y ∈ ys, ∃ x ∈ xs, rel x y

instance {α : Type} (rel : α → α → Prop) [DecidableRel rel] (xs ys : List α) : Decidable (Paired rel xs ys) :=
  inferInstanceAs (Decidable (_ ∧ _))

/-- The same thing, whose channels may have been added in another order. -/
def Thing.Alike (t t' : Thing) : Prop :=
  t.uid = t'.uid ∧ t.label = t'.label ∧ t.location = t'.location ∧ t.type = t'.type ∧
    SameMembers t.channels t'.channels

def Channel.Alike (channel channel' : Channel) : Prop :=
  channel.uid = channel'.uid ∧ channel.thing = channel'.thing ∧ channel.name = channel'.name ∧
    channel.isDefault = channel'.isDefault ∧ SameMembers channel.accepts channel'.accepts

def Item.Alike (item item' : Item) : Prop :=
  item.name = item'.name ∧ item.channel = item'.channel ∧ SameMembers item.accepts item'.accepts

instance : DecidableRel Thing.Alike := fun _ _ => inferInstanceAs (Decidable (_ ∧ _))

instance : DecidableRel Channel.Alike := fun _ _ => inferInstanceAs (Decidable (_ ∧ _))

instance : DecidableRel Item.Alike := fun _ _ => inferInstanceAs (Decidable (_ ∧ _))

section

variable {α β : Type} {rel : α → α → Prop} {xs ys : List α}

/-- Where keys are unique and partners have the same key, a key finds partners or nothing. -/
theorem Paired.find?_key {key : α → String} (h : Paired rel xs ys) (hkey : ∀ x y, rel x y → key x = key y)
    (hxs : (xs.map key).Nodup) (hys : (ys.map key).Nodup) (k : String) :
    Option.Rel rel (xs.find? (key · == k)) (ys.find? (key · == k)) := by
  cases hx : xs.find? (key · == k) with
  | some x =>
    obtain ⟨hmem, rfl⟩ := (Catalog.find?_key_eq_some_iff hxs).mp hx
    obtain ⟨y, hy, hrel⟩ := h.1 x hmem
    rw [(Catalog.find?_key_eq_some_iff hys).mpr ⟨hy, (hkey x y hrel).symm⟩]
    exact .some hrel
  | none =>
    cases hy : ys.find? (key · == k) with
    | none => exact .none
    | some y =>
      obtain ⟨hmem, rfl⟩ := (Catalog.find?_key_eq_some_iff hys).mp hy
      obtain ⟨x, hxmem, hrel⟩ := h.2 y hmem
      exact absurd (hkey x y hrel) (by simpa using List.find?_eq_none.mp hx x hxmem)

theorem Paired.exists_iff (h : Paired rel xs ys) {P Q : α → Prop} (hPQ : ∀ x y, rel x y → (P x ↔ Q y)) :
    (∃ x ∈ xs, P x) ↔ ∃ y ∈ ys, Q y := by
  constructor
  · rintro ⟨x, hx, hP⟩
    obtain ⟨y, hy, hrel⟩ := h.1 x hx
    exact ⟨y, hy, (hPQ x y hrel).mp hP⟩
  · rintro ⟨y, hy, hQ⟩
    obtain ⟨x, hx, hrel⟩ := h.2 y hy
    exact ⟨x, hx, (hPQ x y hrel).mpr hQ⟩

theorem map_eq_map_of_rel {a b : Option α} {f g : α → β} (h : Option.Rel rel a b)
    (hfg : ∀ x y, rel x y → f x = g y) : a.map f = b.map g := by
  cases h with
  | none => rfl
  | some hrel => exact congrArg some (hfg _ _ hrel)

theorem bind_eq_bind_of_rel {a b : Option α} {f g : α → Option β} (h : Option.Rel rel a b)
    (hfg : ∀ x y, rel x y → f x = g y) : a.bind f = b.bind g := by
  cases h with
  | none => rfl
  | some hrel => exact hfg _ _ hrel

theorem mem_getD_map_iff_of_rel {a b : Option α} {f : α → List β} (h : Option.Rel rel a b)
    (hf : ∀ x y, rel x y → SameMembers (f x) (f y)) (v : β) :
    v ∈ (a.map f).getD [] ↔ v ∈ (b.map f).getD [] := by
  cases h with
  | none => rfl
  | some hrel => exact ⟨fun hv => (hf _ _ hrel).1 hv, fun hv => (hf _ _ hrel).2 hv⟩

end

namespace Catalog

/-- Every device of the one catalog is a device of the other. -/
def SameDevices (c c' : Catalog) : Prop :=
  Paired Thing.Alike c.things c'.things ∧ Paired Channel.Alike c.channels c'.channels ∧
    Paired Item.Alike c.items c'.items

instance : DecidableRel SameDevices := fun _ _ => inferInstanceAs (Decidable (_ ∧ _))

theorem item?_eq_none_of_addItem {c c' : Catalog} {name : String} {accepts : List ValueType}
    {bound : Option String} {item : Item} (h : c.addItem name accepts bound = .ok (item, c')) :
    c.item? item.name = none := by
  simp only [addItem] at h
  split_ifs at h with hempty htaken
  split at h
  · cases h
  · cases h
    simpa using htaken

structure Distinct (c : Catalog) : Prop extends c.Consistent where
  items_nodup : (c.items.map (·.name)).Nodup

theorem distinct_empty : Distinct {} where
  toConsistent := consistent_empty
  items_nodup := List.nodup_nil

namespace Distinct

variable {c c' : Catalog}

theorem perform (h : c.Distinct) (op : Operation) : (c.perform op).Distinct := by
  refine ⟨h.toConsistent.perform op, ?_⟩
  cases op with
  | addThing =>
    refine after_keeps (P := fun d => (d.items.map (·.name)).Nodup) h.items_nodup fun _ _ hadd => ?_
    obtain ⟨-, -, -, rfl⟩ := addThing_eq_ok hadd
    exact h.items_nodup
  | addChannel =>
    refine after_keeps (P := fun d => (d.items.map (·.name)).Nodup) h.items_nodup fun _ _ hadd => ?_
    obtain ⟨-, -, -, rfl⟩ := addChannel_eq_ok hadd
    exact h.items_nodup
  | addItem =>
    refine after_keeps (P := fun d => (d.items.map (·.name)).Nodup) h.items_nodup fun item _ hadd => ?_
    rw [addItem_eq_ok hadd]
    refine nodup_map_append_singleton h.items_nodup fun other hother => ?_
    simpa using List.find?_eq_none.mp (item?_eq_none_of_addItem hadd) other hother
  | removeThing uid =>
    rw [Catalog.perform, h.removeThing_eq]
    split <;> exact h.items_nodup

end Distinct

/-! ### What such catalogs say of a device -/

namespace SameDevices

variable {c c' : Catalog} (h : c.SameDevices c') (hc : c.Distinct) (hc' : c'.Distinct)

include h hc hc'

theorem thing?_rel (uid : String) : Option.Rel Thing.Alike (c.thing? uid) (c'.thing? uid) :=
  h.1.find?_key (fun _ _ => And.left) hc.things_nodup hc'.things_nodup uid

theorem channel?_rel (uid : String) : Option.Rel Channel.Alike (c.channel? uid) (c'.channel? uid) :=
  h.2.1.find?_key (fun _ _ => And.left) hc.channels_nodup hc'.channels_nodup uid

theorem item?_rel (name : String) : Option.Rel Item.Alike (c.item? name) (c'.item? name) :=
  h.2.2.find?_key (fun _ _ => And.left) hc.items_nodup hc'.items_nodup name

theorem describe?_eq (r : Reference) : c.describe? r = c'.describe? r := by
  rw [describe?, describe?]
  cases r.kind with
  | item => exact map_eq_map_of_rel (h.item?_rel hc hc' r.id) fun _ _ _ => rfl
  | thing =>
    refine map_eq_map_of_rel (h.thing?_rel hc hc' r.id) fun t t' halike => ?_
    obtain ⟨-, hlabel, hlocation, -⟩ := halike
    rw [hlabel, hlocation]
  | channel =>
    refine map_eq_map_of_rel (h.channel?_rel hc hc' r.id) fun channel channel' halike => ?_
    obtain ⟨-, hthing, -⟩ := halike
    have howner := h.thing?_rel hc hc' channel'.thing
    simp only [hthing, bind_eq_bind_of_rel howner fun _ _ halike => halike.2.1,
      bind_eq_bind_of_rel howner fun _ _ halike => halike.2.2.1]

theorem thingOf?_eq (r : Reference) : c.thingOf? r = c'.thingOf? r := by
  rw [thingOf?, thingOf?]
  cases r.kind with
  | item => rfl
  | thing => exact h.describe?_eq hc hc' r
  | channel =>
    refine bind_eq_bind_of_rel (h.channel?_rel hc hc' r.id) fun channel channel' halike => ?_
    rw [halike.2.1, h.describe?_eq hc hc']

theorem isDefault_eq (r : Reference) : c.isDefault r = c'.isDefault r := by
  rw [isDefault, isDefault,
    map_eq_map_of_rel (h.channel?_rel hc hc' r.id) fun _ _ halike => halike.2.2.2.1]

theorem mem_accepted?_iff (r : Reference) (type : ValueType) :
    type ∈ (c.accepted? r).getD [] ↔ type ∈ (c'.accepted? r).getD [] := by
  rw [accepted?, accepted?]
  cases r.kind with
  | item => exact mem_getD_map_iff_of_rel (h.item?_rel hc hc' r.id) (fun _ _ halike => halike.2.2) type
  | thing => exact mem_getD_map_iff_of_rel (h.thing?_rel hc hc' r.id) (fun _ _ _ => by simp) type
  | channel =>
    exact mem_getD_map_iff_of_rel (h.channel?_rel hc hc' r.id) (fun _ _ halike => halike.2.2.2.2) type

omit hc hc' in
theorem exists_belonging_iff (thing : String) (P : String → Prop) :
    (∃ channel ∈ c.belonging thing, P channel.uid) ↔ ∃ channel ∈ c'.belonging thing, P channel.uid := by
  simp only [belonging, List.mem_filter, and_assoc]
  refine h.2.1.exists_iff fun channel channel' halike => ?_
  rw [halike.1, halike.2.1]

omit hc hc' in
theorem mem_matchesOf_iff (spec : String) (parts : List String) (r : Reference) :
    r ∈ c.things.flatMap (matchesOf spec parts) ↔ r ∈ c'.things.flatMap (matchesOf spec parts) := by
  rw [List.mem_flatMap, List.mem_flatMap]
  refine h.1.exists_iff fun t t' halike => ?_
  obtain ⟨huid, hlabel, hlocation, -⟩ := halike
  rw [matchesOf.eq_def, matchesOf.eq_def, huid, hlabel, hlocation]

end SameDevices

end Catalog
end Domotics
