import Domotics.Proofs.Catalog.Ownership
import Domotics.Proofs.Engine.Record
import Mathlib.Data.List.Forall2
import Mathlib.Data.List.Perm.Subperm

/-!
Agreement of documents. Among documents that can be written, in which no object has a key twice, agreement is an
equivalence: the entries of an object may come in any order, but two objects of one size in which every entry of the
first has its partner in the second have the same keys. So it is one among the targets of aliases.
-/

namespace Domotics

namespace Document

/-- No object of the document has a key twice. -/
inductive WellFormed : Document → Prop
  | scalar {d : Document} (h : d.isScalar = true) : WellFormed d
  | list {items : List Document} (h : ∀ x ∈ items, WellFormed x) : WellFormed (.list items)
  | object {entries : List (String × Document)} (keys : (entries.map (·.1)).Nodup)
      (h : ∀ e ∈ entries, WellFormed e.2) : WellFormed (.object entries)

variable {d e f : Document} {key : String} {value : Document} {xs ys : List (String × Document)}

theorem agreesList_iff {items others : List Document} : agreesList items others = true ↔
    items.length = others.length ∧ ∀ i (hi : i < items.length) (hi' : i < others.length),
      (items.get ⟨i, hi⟩).agrees (others.get ⟨i, hi'⟩) = true := by
  rw [← List.forall₂_iff_get (R := fun x y => agrees x y = true)]
  induction items generalizing others with
  | nil => cases others <;> simp [agreesList]
  | cons x rest ih => cases others <;> simp [agreesList, ih]

theorem agreesEntry_iff {entry : String × Document} : agreesEntry entry ys = true ↔
    ∃ value, entry? entry.1 ys = some value ∧ entry.2.agrees value = true := by
  obtain ⟨key, own⟩ := entry
  cases hfound : entry? key ys <;> simp [agreesEntry, hfound]

theorem agreesEntries_iff : agreesEntries xs ys = true ↔
    ∀ entry ∈ xs, ∃ value, entry? entry.1 ys = some value ∧ entry.2.agrees value = true := by
  induction xs with
  | nil => simp [agreesEntries]
  | cons entry rest ih => simp [agreesEntries, agreesEntry_iff, ih]

theorem mem_of_entry?_eq_some (h : entry? key ys = some value) : (key, value) ∈ ys := by
  obtain ⟨⟨k, v⟩, hfind, rfl⟩ := Option.map_eq_some_iff.mp h
  obtain rfl : k = key := by simpa using List.find?_some hfind
  exact List.mem_of_find?_eq_some hfind

theorem entry?_of_mem (hkeys : (ys.map (·.1)).Nodup) (h : (key, value) ∈ ys) : entry? key ys = some value := by
  rw [ entry?, (Catalog.find?_key_eq_some_iff hkeys).mpr ⟨h, rfl⟩, Option.map_some]

theorem isScalar_of_agrees (h : d.agrees e = true) : e.isScalar = d.isScalar := by
  cases d <;> cases e <;> simp_all [agrees, toNumber?, isScalar]

theorem keys_perm (hkeys : (xs.map (·.1)).Nodup) (hlength : xs.length = ys.length)
    (hpartners : ∀ entry ∈ xs, ∃ value, entry? entry.1 ys = some value) :
    (xs.map (·.1)).Perm (ys.map (·.1)) := by
  have hsubset : xs.map (·.1) ⊆ ys.map (·.1) := by
    intro key hkey
    obtain ⟨entry, hentry, rfl⟩ := List.mem_map.mp hkey
    obtain ⟨value, hvalue⟩ := hpartners entry hentry
    exact List.mem_map.mpr ⟨(entry.1, value), mem_of_entry?_eq_some hvalue, rfl⟩
  exact (hkeys.subperm hsubset).perm_of_length_le (by simp [hlength])

namespace WellFormed

theorem agrees_self (h : d.WellFormed) : d.agrees d = true := by
  induction h with
  | scalar hd => exact agrees_self_of_isScalar hd
  | list _ ih =>
    rw [agrees, agreesList_iff]
    exact ⟨rfl, fun i hi _ => ih _ (List.get_mem ..)⟩
  | object hkeys _ ih =>
    rw [agrees, Bool.and_eq_true, agreesEntries_iff]
    exact ⟨by simp, fun entry hentry => ⟨entry.2, entry?_of_mem hkeys hentry, ih entry hentry⟩⟩

theorem agrees_symm (h : d.WellFormed) (hagrees : d.agrees e = true) : e.agrees d = true := by
  induction h generalizing e with
  | scalar hd =>
    have he : e.isScalar = true := (isScalar_of_agrees hagrees).trans hd
    exact (agrees_iff_key _ hd).mpr ((agrees_iff_key _ he).mp hagrees).symm
  | list _ ih =>
    cases e with
    | list others =>
      rw [agrees, agreesList_iff] at hagrees ⊢
      exact ⟨hagrees.1.symm, fun i hi hi' => ih _ (List.get_mem ..) (hagrees.2 i hi' hi)⟩
    | _ => cases hagrees
  | @object xs hkeys _ ih =>
    cases e with
    | object ys =>
      rw [agrees, Bool.and_eq_true, beq_iff_eq, agreesEntries_iff] at hagrees ⊢
      obtain ⟨hlength, hpartners⟩ := hagrees
      have hperm : (xs.map (·.1)).Perm (ys.map (·.1)) :=
        keys_perm hkeys hlength fun entry hentry => (hpartners entry hentry).imp fun _ h => h.1
      refine ⟨hlength.symm, fun entry hentry => ?_⟩
      -- An entry of the second object is the partner of the entry that has its key in the first.
      obtain ⟨own, hown, hkey⟩ := List.mem_map.mp (hperm.mem_iff.mpr (List.mem_map_of_mem hentry))
      obtain ⟨value, hvalue, hagree⟩ := hpartners own hown
      have hentryOf : entry? own.1 ys = some entry.2 := entry?_of_mem (hperm.nodup_iff.mp hkeys) (hkey ▸ hentry)
      cases hvalue.symm.trans hentryOf
      exact ⟨own.2, hkey ▸ entry?_of_mem hkeys hown, ih own hown hagree⟩
    | _ => cases hagrees

theorem agrees_trans (h : d.WellFormed) (hde : d.agrees e = true) (hef : e.agrees f = true) :
    d.agrees f = true := by
  induction h generalizing e f with
  | scalar hd =>
    have he : e.isScalar = true := (isScalar_of_agrees hde).trans hd
    have hf : f.isScalar = true := (isScalar_of_agrees hef).trans he
    exact (agrees_iff_key _ hf).mpr (((agrees_iff_key _ he).mp hde).trans ((agrees_iff_key _ hf).mp hef))
  | list _ ih =>
    cases e with
    | list _ =>
      cases f with
      | list _ =>
        rw [agrees, agreesList_iff] at hde hef ⊢
        refine ⟨hde.1.trans hef.1, fun i hi hi' => ?_⟩
        have hbetween := hde.1 ▸ hi
        exact ih _ (List.get_mem ..) (hde.2 i hi hbetween) (hef.2 i hbetween hi')
      | _ => cases hef
    | _ => cases hde
  | @object xs hkeys _ ih =>
    cases e with
    | object ys =>
      cases f with
      | object zs =>
        rw [agrees, Bool.and_eq_true, beq_iff_eq, agreesEntries_iff] at hde hef ⊢
        refine ⟨hde.1.trans hef.1, fun entry hentry => ?_⟩
        obtain ⟨value, hvalue, hfirst⟩ := hde.2 entry hentry
        obtain ⟨last, hlast, hsecond⟩ := hef.2 (entry.1, value) (mem_of_entry?_eq_some hvalue)
        exact ⟨last, hlast, ih entry hentry hfirst hsecond⟩
      | _ => cases hef
    | _ => cases hde

end WellFormed

end Document

namespace AliasTarget

variable {a b c : AliasTarget}

theorem agrees_iff : a.agrees b = true ↔ a.kind = b.kind ∧ a.id.agrees b.id = true := by
  rw [agrees, Bool.and_eq_true, beq_iff_eq]

theorem agrees_self (h : a.id.WellFormed) : a.agrees a = true := agrees_iff.mpr ⟨rfl, h.agrees_self⟩

theorem agrees_symm (h : a.id.WellFormed) (hab : a.agrees b = true) : b.agrees a = true := by
  obtain ⟨hkind, hid⟩ := agrees_iff.mp hab
  exact agrees_iff.mpr ⟨hkind.symm, h.agrees_symm hid⟩

theorem agrees_trans (h : a.id.WellFormed) (hab : a.agrees b = true) (hbc : b.agrees c = true) :
    a.agrees c = true := by
  obtain ⟨hkind, hid⟩ := agrees_iff.mp hab
  obtain ⟨hkind', hid'⟩ := agrees_iff.mp hbc
  exact agrees_iff.mpr ⟨hkind.trans hkind', h.agrees_trans hid hid'⟩

end AliasTarget
end Domotics
