import Domotics.Document.Reader
import Domotics.Proofs.Engine.Consistency
import Domotics.Service

/-!
Rule sets that are read from a configuration. The reader of documents keeps the last value of a key that comes twice,
so no object has one twice, nor has any part of the document. So the identifiers in what is read can be compared, and
whether the rules of a text are loaded depends on their consistency only.
-/

namespace Domotics

namespace Document

variable {d : Document} {key : String} {value : Document} {entries : List (String × Document)}

theorem mem_putEntry {e : String × Document} (h : e ∈ putEntry key value entries) : e ∈ entries ∨ e = (key, value) := by
  induction entries with
  | nil => exact .inr (List.mem_singleton.mp h)
  | cons first rest ih =>
    obtain ⟨k, v⟩ := first
    rw [putEntry] at h
    split_ifs at h with hk
    · rcases List.mem_cons.mp h with rfl | h
      · exact .inr (by rw [hk])
      · exact .inl (List.mem_cons_of_mem _ h)
    · rcases List.mem_cons.mp h with rfl | h
      · exact .inl (List.mem_cons_self ..)
      · exact (ih h).imp_left (List.mem_cons_of_mem _)

theorem keys_putEntry_nodup (h : (entries.map (·.1)).Nodup) : ((putEntry key value entries).map (·.1)).Nodup := by
  induction entries with
  | nil => simp [putEntry]
  | cons first rest ih =>
    obtain ⟨k, v⟩ := first
    obtain ⟨hfirst, hrest⟩ := List.nodup_cons.mp h
    rw [putEntry]
    split_ifs with hk
    · exact h
    · refine List.nodup_cons.mpr ⟨fun hmem => ?_, ih hrest⟩
      obtain ⟨e, he, hek⟩ := List.mem_map.mp hmem
      rcases mem_putEntry he with he | rfl
      · exact hfirst (hek ▸ List.mem_map_of_mem he)
      · exact hk hek.symm

theorem isScalar_readNumber {negative : Bool} {cs rest : List Char} (h : readNumber negative cs = some (d, rest)) :
    d.isScalar = true := by
  unfold readNumber at h
  simp only at h
  split_ifs at h <;> cases h <;> rfl

theorem isScalar_readScalar {cs rest : List Char} (h : readScalar cs = some (d, rest)) : d.isScalar = true := by
  rw [readScalar.eq_def] at h
  cases hword : words.find? (fun w => w.1.isPrefixOf cs) with
  | some word =>
    rw [hword] at h
    cases h
    have hscalars : ∀ w ∈ words, w.2.isScalar = true := by decide
    exact hscalars word (List.mem_of_find?_eq_some hword)
  | none =>
    rw [hword] at h
    simp only at h
    split at h <;> exact isScalar_readNumber h

theorem wellFormed_of_readers (fuel : Nat) :
    (∀ cs d rest, readValue fuel cs = some (d, rest) → d.WellFormed) ∧
    (∀ items cs d rest, (∀ x ∈ items, WellFormed x) → readItems fuel items cs = some (d, rest) → d.WellFormed) ∧
    ∀ entries cs d rest, (entries.map (·.1)).Nodup → (∀ e ∈ entries, WellFormed e.2) →
      readEntries fuel entries cs = some (d, rest) → d.WellFormed := by
  induction fuel with
  | zero => exact ⟨by simp [readValue], by simp [readItems], by simp [readEntries]⟩
  | succ fuel ih =>
    obtain ⟨hvalue, hitems, hentries⟩ := ih
    refine ⟨fun cs d rest h => ?_, fun items cs d rest hold h => ?_, fun entries cs d rest hkeys hold h => ?_⟩
    · rw [readValue.eq_def] at h
      simp only at h
      split at h
      · obtain ⟨_, -, heq⟩ := Option.map_eq_some_iff.mp h
        cases heq
        exact .scalar rfl
      · split at h
        · cases h
          exact .list (by simp)
        · exact hitems _ _ _ _ (by simp) h
      · split at h
        · cases h
          exact .object (by simp) (by simp)
        · exact hentries _ _ _ _ (by simp) (by simp) h
      · exact .scalar (isScalar_readScalar h)
    · rw [readItems] at h
      obtain ⟨⟨x, more⟩, hx, h⟩ := Option.bind_eq_some_iff.mp h
      have hall : ∀ y ∈ x :: items, WellFormed y := List.forall_mem_cons.mpr ⟨hvalue _ _ _ hx, hold⟩
      simp only at h
      split at h
      · exact hitems _ _ _ _ hall h
      · cases h
        exact .list fun y hy => hall y (List.mem_reverse.mp hy)
      · cases h
    · rw [readEntries.eq_def] at h
      simp only at h
      split at h
      · obtain ⟨⟨key, more⟩, -, h⟩ := Option.bind_eq_some_iff.mp h
        simp only at h
        split at h
        · obtain ⟨⟨x, more⟩, hx, h⟩ := Option.bind_eq_some_iff.mp h
          have hall : ∀ e ∈ putEntry key x entries, WellFormed e.2 := by
            intro e he
            rcases mem_putEntry he with he | rfl
            · exact hold e he
            · exact hvalue _ _ _ hx
          simp only at h
          split at h
          · exact hentries _ _ _ _ (keys_putEntry_nodup hkeys) hall h
          · cases h
            exact .object (keys_putEntry_nodup hkeys) hall
          · cases h
        · cases h
      · cases h

theorem wellFormed_of_read? {s : String} (h : read? s = some d) : d.WellFormed := by
  rw [read?] at h
  split at h
  · next found rest hread =>
    split_ifs at h
    cases h
    exact (wellFormed_of_readers _).1 _ _ _ hread
  · cases h

namespace WellFormed

theorem values_of_object (h : (Document.object entries).WellFormed) : ∀ e ∈ entries, e.2.WellFormed := by
  cases h with
  | scalar hscalar => cases hscalar
  | object _ hvalues => exact hvalues

theorem items_of_list {items : List Document} (h : (Document.list items).WellFormed) : ∀ x ∈ items, x.WellFormed := by
  cases h with
  | scalar hscalar => cases hscalar
  | list hitems => exact hitems

theorem setting {default : Document} (h : (Document.object entries).WellFormed) (hdefault : default.WellFormed)
    (key : String) : (Rule.setting key default entries).WellFormed := by
  rw [Rule.setting]
  cases hfound : entry? key entries with
  | none => exact hdefault
  | some value => exact h.values_of_object _ (mem_of_entry?_eq_some hfound)

theorem itemsOf {items : List Document} (h : d.WellFormed) (hitems : Schedule.itemsOf d = .ok items) :
    ∀ x ∈ items, x.WellFormed := by
  cases d with
  | list xs =>
    cases hitems
    exact h.items_of_list
  | text _ | object _ =>
    cases hitems
    exact List.forall_mem_map.mpr fun _ _ => .scalar rfl
  | _ => cases hitems

end WellFormed

end Document

namespace AliasTarget

theorem wellFormed_of_parse {name : String} {raw : Document} {target : AliasTarget} (hraw : raw.WellFormed)
    (h : parse name raw = .ok target) : target.id.WellFormed := by
  rw [parse.eq_def] at h
  split at h
  · split at h
    · cases h
      exact hraw.values_of_object _ (List.mem_singleton_self _)
    · cases h
  · cases h

theorem wellFormed_of_parseEntries {entries : List (String × Document)} {bindings : List (String × AliasTarget)}
    (hvalues : ∀ e ∈ entries, e.2.WellFormed) (h : parseEntries entries = .ok bindings) :
    ∀ b ∈ bindings, b.2.id.WellFormed := by
  induction entries generalizing bindings with
  | nil =>
    cases h
    simp
  | cons entry rest ih =>
    obtain ⟨hentry, hrest⟩ := List.forall_mem_cons.mp hvalues
    rw [parseEntries] at h
    obtain ⟨target, htarget, h⟩ := Result.bind_eq_ok.mp h
    obtain ⟨others, hothers, h⟩ := Result.bind_eq_ok.mp h
    cases h
    exact List.forall_mem_cons.mpr ⟨wellFormed_of_parse hentry htarget, ih hrest hothers⟩

theorem wellFormed_of_parseAll {data : Document} {bindings : List (String × AliasTarget)} (hdata : data.WellFormed)
    (h : parseAll data = .ok bindings) : ∀ b ∈ bindings, b.2.id.WellFormed := by
  cases data with
  | object entries => exact wellFormed_of_parseEntries hdata.values_of_object h
  | _ => cases h

end AliasTarget

namespace Rule

theorem toRule_of_checked {r : Rule} {made : CheckedRule} (h : r.checked = .ok made) : made.toRule = r := by
  rw [checked] at h
  split_ifs at h
  cases h
  rfl

theorem wellFormed_of_read {registry : ActionRegistry} {data : Document} {made : CheckedRule} (hdata : data.WellFormed)
    (h : read registry data = .ok made) : ∀ b ∈ made.aliases, b.2.id.WellFormed := by
  cases data with
  | object entries =>
    rw [read] at h
    split at h
    · cases h
    · -- Actions, clauses, the schedule, the cooldown and periodic fires come before the aliases.
      iterate 10 obtain ⟨_, -, h⟩ := Result.bind_eq_ok.mp h
      obtain ⟨aliases, haliases, hchecked⟩ := Result.bind_eq_ok.mp h
      rw [toRule_of_checked hchecked]
      exact AliasTarget.wellFormed_of_parseAll (hdata.setting (.object (by simp) (by simp)) _) haliases
  | _ => cases h

end Rule

namespace RuleSet

theorem wellFormed_of_read {registry : ActionRegistry} {data : Document} {made : CheckedRuleSet}
    (hdata : data.WellFormed) (h : read registry data = .ok made) :
    ∀ name target, made.toRuleSet.Declares name target → target.id.WellFormed := by
  cases data with
  | object entries =>
    rw [read] at h
    obtain ⟨items, hitems, h⟩ := Result.bind_eq_ok.mp h
    obtain ⟨rules, hrules, h⟩ := Result.bind_eq_ok.mp h
    obtain ⟨aliases, haliases, h⟩ := Result.bind_eq_ok.mp h
    cases h
    rintro name target (hd | ⟨r, hr, hd⟩)
    · exact AliasTarget.wellFormed_of_parseAll (hdata.setting (.object (by simp) (by simp)) _) haliases _ hd
    · obtain ⟨rule, hrule, rfl⟩ := List.mem_map.mp hr
      obtain ⟨raw, hraw, hread⟩ := Result.mem_of_mapM hrules rule hrule
      exact Rule.wellFormed_of_read ((hdata.setting (.list (by simp)) _).itemsOf hitems raw hraw) hread _ hd
  | _ => cases h

end RuleSet

namespace Service

variable {s : Service} {config : Document} {rs : RuleSet}

theorem made_of_parseConfig (hconfig : config.WellFormed) (h : s.parseConfig config = .ok rs) :
    ∃ made : CheckedRuleSet, made.toRuleSet = rs ∧
      ∀ name target, rs.Declares name target → target.id.WellFormed := by
  cases config with
  | object entries =>
    rw [parseConfig] at h
    split at h
    · rw [RuleSet.parse] at h
      cases hread : RuleSet.read s.actions (.object entries) with
      | error fault =>
        rw [hread] at h
        cases h
      | ok made =>
        rw [hread] at h
        cases h
        exact ⟨made, rfl, RuleSet.wellFormed_of_read hconfig hread⟩
    · cases h
      exact ⟨{}, rfl, by simp [RuleSet.Declares]⟩
  | _ => cases h

theorem loadConfig_of_running (hrunning : s.running = true) (h : s.parseConfig config = .ok rs) :
    ((s.loadConfig config).2 = .ok rs ↔ (s.world.load rs none).2 = .ok ()) ∧
      (s.loadConfig config).1.world = (s.world.load rs none).1 := by
  rw [loadConfig, h]
  simp only [loadRuleSet, hrunning, Bool.not_true, Bool.false_eq_true, if_false]
  rcases s.world.load rs none with ⟨w, fault | ⟨⟩⟩
  · exact ⟨⟨nofun, nofun⟩, rfl⟩
  · exact ⟨⟨fun _ => rfl, fun _ => rfl⟩, rfl⟩

/-- A running service that is configured by a text loads the rules in it if they are consistent, as long as they have
texts as names and no periodic fires. The names of the registry then stand for what the text declares. -/
theorem loads_consistent_texts {text : String} (hrunning : s.running = true)
    (hread : Document.read? text = some config) (hparse : s.parseConfig config = .ok rs)
    (hrules : ∀ r ∈ rs.rules, r.Plain) :
    ((s.loadConfig config).2 = .ok rs ↔ rs.Consistent) ∧
      (rs.Consistent → rs.Registered (s.loadConfig config).1.world.engine.book.aliases) := by
  obtain ⟨made, rfl, hids⟩ := made_of_parseConfig (Document.wellFormed_of_read? hread) hparse
  have hplain : made.toRuleSet.Plain := ⟨hrules, hids⟩
  obtain ⟨hloads, hworld⟩ := loadConfig_of_running hrunning hparse
  rw [hloads, hworld]
  exact ⟨World.load_isOk_iff_consistent hplain,
    fun hconsistent => World.registered_of_load hplain ((World.load_isOk_iff_consistent hplain).mpr hconsistent)⟩

end Service
end Domotics
