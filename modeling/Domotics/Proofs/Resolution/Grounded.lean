import Domotics.Expression.Evaluation
import Domotics.Proofs.Catalog.Description
import Domotics.Proofs.Resolution.Memory
import Domotics.Proofs.Result

/-!
Resolutions name registered devices only. After any operations on a catalog a device that was found is one
that the catalog has at that point, with its present location and label, and candidates between which nothing
decides are several different ones, whatever the aliases stand for and whatever the memory of a resolver held
before. So a device that was found always says what it accepts.
-/

namespace Domotics

namespace Catalog

variable {found ds : List Description} {d : Description}

theorem mem_appendNew (h : d ∈ appendNew found ds) : d ∈ found ∨ d ∈ ds := by
  induction ds generalizing found with
  | nil => exact .inl h
  | cons x rest ih =>
    rw [appendNew] at h
    rcases ih h with hd | hd
    · split_ifs at hd with hany
      · exact .inl hd
      · rcases List.mem_append.mp hd with hd | hd
        · exact .inl hd
        · exact .inr (List.mem_singleton.mp hd ▸ List.mem_cons_self ..)
    · exact .inr (List.mem_cons_of_mem _ hd)

theorem mem_of_mem_appendNew_nil (h : d ∈ appendNew [] ds) : d ∈ ds :=
  (mem_appendNew h).resolve_left List.not_mem_nil

theorem nodup_appendNew (h : (found.map (·.ref)).Nodup) : ((appendNew found ds).map (·.ref)).Nodup := by
  induction ds generalizing found with
  | nil => exact h
  | cons x rest ih =>
    rw [appendNew]
    refine ih ?_
    split_ifs with hany
    · exact h
    · refine nodup_map_append_singleton h fun d hd hsame => ?_
      exact hany (List.any_eq_true.mpr ⟨d, hd, by simpa using hsame⟩)

theorem prefix_appendNew (found ds : List Description) : found <+: appendNew found ds := by
  induction ds generalizing found with
  | nil => exact List.prefix_rfl
  | cons x rest ih =>
    rw [appendNew]
    split_ifs
    · exact ih found
    · exact (List.prefix_append ..).trans (ih _)

theorem appendNew_ne_nil (h : ds ≠ []) : appendNew [] ds ≠ [] := by
  cases ds with
  | nil => exact absurd rfl h
  | cons x rest =>
    intro hnil
    have hprefix : [x] <+: appendNew [] (x :: rest) := prefix_appendNew [x] rest
    rw [hnil] at hprefix
    simpa using hprefix.length_le

theorem kind_of_mem_matchesOf {spec : String} {parts : List String} {t : Thing} {r : Reference}
    (h : r ∈ matchesOf spec parts t) : r.kind ≠ .item := by
  have hone : ∀ (p : Prop) [Decidable p] (ref : Reference), ref.kind ≠ .item →
      r ∈ (if p then [ref] else []) → r.kind ≠ .item := by
    intro p _ ref hkind hr
    split_ifs at hr
    · exact List.mem_singleton.mp hr ▸ hkind
    · cases hr
  rw [matchesOf.eq_def] at h
  rcases List.mem_append.mp h with h | h
  · exact hone _ _ (by simp) h
  · split at h
    · rcases List.mem_append.mp h with h | h <;> exact hone _ _ (by simp) h
    · exact hone _ _ (by simp) h
    · cases h

end Catalog

namespace Resolution

/-- What a resolution says is true of a catalog: a device that was found is described as it is at present, and
it is no channel if a connection was asked for; devices between which nothing decides are at least two, no two
the same, and described as they are at present. -/
def Grounded (c : Catalog) (type : Option ValueType) (r : Resolution) : Prop :=
  match r.status with
  | .resolved => ∃ d, r.reference = some d ∧ c.Current d ∧ (type = some .status → d.ref.kind ≠ .channel)
  | .ambiguous => r.reference = none ∧ 2 ≤ r.candidates.length ∧ (r.candidates.map (·.ref)).Nodup ∧
      ∀ d ∈ r.candidates, c.Current d
  | .notFound => r.reference = none ∧ r.candidates = []

section

variable {c : Catalog} {type : Option ValueType} {d : Description} {ds : List Description}

theorem mem_of_mem_pool (h : d ∈ pool c type ds) : d ∈ ds := by
  cases type with
  | none => exact h
  | some t =>
    rw [pool] at h
    cases hfilter : ds.filter fun d => ((c.accepted? d.ref).getD []).contains t with
    | nil => simpa only [hfilter] using h
    | cons x rest =>
      simp only [hfilter] at h
      exact List.mem_of_mem_filter (hfilter ▸ h)

theorem mem_of_tieBreak (h : tieBreak c type ds = some d) : d ∈ ds := by
  rw [tieBreak.eq_def] at h
  split at h
  · cases h
    exact List.mem_singleton_self d
  · simp only at h
    split at h
    · next hdefault =>
      cases h
      have hmem := List.mem_singleton_self d
      rw [← hdefault] at hmem
      exact mem_of_mem_pool (List.mem_of_mem_filter hmem)
    · next hpool _ =>
      cases h
      exact mem_of_mem_pool (hpool ▸ List.mem_singleton_self d)
    · cases h

theorem two_le_length (hne : ds ≠ []) (hmany : ∀ d, ds ≠ [d]) : 2 ≤ ds.length := by
  match ds, hne, hmany with
  | [d], _, hmany => exact absurd rfl (hmany d)
  | _ :: _ :: _, _, _ => simp

theorem grounded_notFound : notFound.Grounded c type := ⟨rfl, rfl⟩

theorem grounded_ambiguous (hds : ∀ d ∈ ds, c.Current d) (hnodup : (ds.map (·.ref)).Nodup) (hne : ds ≠ [])
    (hmany : ∀ d, ds ≠ [d]) : (ambiguous ds).Grounded c type :=
  ⟨rfl, two_le_length hne hmany, hnodup, hds⟩

theorem Grounded.current {r : Resolution} (h : r.Grounded c type) (hd : r.reference = some d) :
    c.Current d := by
  rw [Grounded] at h
  split at h
  · obtain ⟨other, hother, hcurrent, -⟩ := h
    cases hother.symm.trans hd
    exact hcurrent
  · cases h.1.symm.trans hd
  · cases h.1.symm.trans hd

variable (h : c.Consistent)

include h

theorem grounded_exact (hd : c.Current d) : (exact c d type).Grounded c type := by
  rw [exact]
  split_ifs with hstatus
  · obtain ⟨t, ht, hcurrent, hkind⟩ := h.exists_thingOf? hd (by simp [hstatus.2])
    rw [ht, Option.getD_some]
    exact ⟨t, rfl, hcurrent, fun _ => by simp [hkind]⟩
  · exact ⟨d, rfl, hd, fun htype hkind => hstatus ⟨htype, hkind⟩⟩

theorem current_of_mem_expand {x : Description} (hd : c.Current d) (hx : x ∈ expand c d) :
    c.Current x := by
  rw [expand] at hx
  split_ifs at hx
  · split at hx
    · exact List.mem_singleton.mp hx ▸ hd
    · obtain ⟨channel, -, hdescribe⟩ := List.mem_filterMap.mp hx
      exact h.current_of_describe? hdescribe
  · exact List.mem_singleton.mp hx ▸ hd

omit h in
theorem expand_ne_nil (c : Catalog) (d : Description) : expand c d ≠ [] := by
  rw [expand]
  split_ifs
  · split
    · simp
    · next hne => exact fun hnil => hne hnil
  · simp

theorem grounded_byLabel (hds : ∀ d ∈ ds, c.Current d ∧ d.ref.kind ≠ .item) :
    (byLabel c type ds).Grounded c type := by
  rw [byLabel.eq_def]
  split
  · exact grounded_notFound
  · next hne =>
    split_ifs with hstatus
    · -- A connection is asked for: every candidate leads to its thing, so there is at least one.
      have hthings : ∀ x ∈ Catalog.appendNew [] (ds.filterMap fun d => c.thingOf? d.ref),
          c.Current x ∧ x.ref.kind = .thing := by
        intro x hx
        obtain ⟨d, hd, hthing⟩ := List.mem_filterMap.mp (Catalog.mem_of_mem_appendNew_nil hx)
        obtain ⟨t, ht, hcurrent⟩ := h.exists_thingOf? (hds d hd).1 (hds d hd).2
        cases ht.symm.trans hthing
        exact hcurrent
      have hsome : (ds.filterMap fun d => c.thingOf? d.ref) ≠ [] := by
        obtain ⟨d, rest, rfl⟩ := List.exists_cons_of_ne_nil hne
        have hmem := List.mem_cons_self (a := d) (l := rest)
        obtain ⟨t, ht, -⟩ := h.exists_thingOf? (hds d hmem).1 (hds d hmem).2
        exact List.ne_nil_of_mem (List.mem_filterMap.mpr ⟨d, hmem, ht⟩)
      split
      · next thing hone =>
        obtain ⟨hcurrent, hkind⟩ := hthings thing (hone ▸ List.mem_singleton_self thing)
        exact ⟨thing, rfl, hcurrent, fun _ => by simp [hkind]⟩
      · next hmany =>
        exact grounded_ambiguous (fun x hx => (hthings x hx).1) (Catalog.nodup_appendNew List.nodup_nil)
          (Catalog.appendNew_ne_nil hsome) hmany
    · have hexpanded : ∀ x ∈ Catalog.appendNew [] (ds.flatMap (expand c)), c.Current x := by
        intro x hx
        obtain ⟨d, hd, hx⟩ := List.mem_flatMap.mp (Catalog.mem_of_mem_appendNew_nil hx)
        exact current_of_mem_expand h (hds d hd).1 hx
      have hsome : ds.flatMap (expand c) ≠ [] := by
        intro hnil
        obtain ⟨d, rest, rfl⟩ := List.exists_cons_of_ne_nil hne
        exact expand_ne_nil c d (List.flatMap_eq_nil_iff.mp hnil d (List.mem_cons_self ..))
      simp only
      split
      · next d hchosen =>
        exact ⟨d, rfl, hexpanded d (mem_of_tieBreak hchosen), fun htype => absurd htype hstatus⟩
      · next hnone =>
        refine grounded_ambiguous hexpanded (Catalog.nodup_appendNew List.nodup_nil)
          (Catalog.appendNew_ne_nil hsome) fun d hone => ?_
        rw [hone, tieBreak] at hnone
        cases hnone

theorem current_of_mem_labelled {spec : String} (hd : d ∈ c.labelled spec) :
    c.Current d ∧ d.ref.kind ≠ .item := by
  obtain ⟨r, hr, hdescribe⟩ := List.mem_filterMap.mp (Catalog.mem_of_mem_appendNew_nil hd)
  obtain ⟨t, -, hmatch⟩ := List.mem_flatMap.mp hr
  refine ⟨h.current_of_describe? hdescribe, ?_⟩
  rw [Catalog.ref_of_describe? hdescribe]
  exact Catalog.kind_of_mem_matchesOf hmatch

theorem grounded_byName (spec : String) (type : Option ValueType) :
    (byName c spec type).Grounded c type := by
  rw [byName]
  split
  · next hd => exact grounded_exact h (h.current_of_describe? hd)
  · split
    · next hd => exact grounded_exact h (h.current_of_describe? hd)
    · split
      · next hd => exact grounded_exact h (h.current_of_describe? hd)
      · exact grounded_byLabel h fun _ => current_of_mem_labelled h

theorem grounded_byAlias {target : AliasTarget} {r : Resolution} (hr : byAlias c target type = .ok r) :
    r.Grounded c type := by
  rw [byAlias.eq_def] at hr
  split at hr
  · split at hr
    · next hd =>
      cases hr
      exact grounded_exact h (h.current_of_describe? hd)
    · cases hr
      exact grounded_notFound
  · split_ifs at hr
    cases hr
    exact grounded_notFound

theorem grounded_ofTarget {aliases : AliasRegistry} {spec : Document} {r : Resolution}
    (hr : ofTarget aliases c spec type = .ok r) : r.Grounded c type := by
  rw [ofTarget.eq_def] at hr
  split at hr
  · rw [ofText] at hr
    split at hr
    · exact grounded_byAlias h hr
    · cases hr
      exact grounded_byName h ..
  · split_ifs at hr

theorem current_of_strict {aliases : AliasRegistry} {spec : Document}
    (hd : strict aliases c spec type = .ok d) : c.Current d := by
  rw [strict, Result.bind_eq_ok] at hd
  obtain ⟨r, hr, hd⟩ := hd
  cases hreference : r.reference with
  | none => simp [hreference] at hd
  | some found =>
    simp only [hreference] at hd
    cases hd
    exact (grounded_ofTarget h hr).current hreference

end

end Resolution

namespace Resolver

def Operation.onCatalog? : Operation → Option Catalog.Operation
  | catalog op => some op
  | _ => none

/-- Nothing but operations on the catalog changes the catalog. -/
theorem catalog_run (r : Resolver) (ops : List Operation) :
    (r.run ops).catalog = r.catalog.run (ops.filterMap (·.onCatalog?)) := by
  induction ops generalizing r with
  | nil => rfl
  | cons op rest ih =>
    have hrun : (r.run (op :: rest)).catalog = ((r.perform op).run rest).catalog := rfl
    rw [hrun, ih]
    cases op with
    | catalog | aliases | invalidate => rfl
    | lookup spec type =>
      rw [perform, lookup_catalog]
      rfl

/-- A resolver over a catalog that has come about by any operations, and over any aliases: after any further
operations on them, and lookups in between, what it finds is true of the catalog at that point. A device that
was found, or that the target of a predicate stands for, always has something that it accepts. -/
theorem lookup_never_dangles (earlier : List Catalog.Operation) (a : AliasRegistry) (ops : List Operation) :
    let r := (ofSources (Catalog.run {} earlier) a).run ops
    (∀ (spec : String) (type : Option ValueType) (found : Resolution),
      (r.lookup (.text spec) type).2 = .ok found →
        found.Grounded r.catalog type ∧
          ∀ d, found.reference = some d → ∃ accepted, r.catalog.accepted? d.ref = some accepted) ∧
    ∀ (p : Predicate) (s : Situation) (d : Description), s.catalog = r.catalog →
      Resolution.strict s.aliases s.catalog p.target p.type = .ok d →
        ∃ accepted, s.catalog.accepted? d.ref = some accepted := by
  intro r
  have hcoherent : r.Coherent := (coherent_of_fresh _ a).run ops
  have hconsistent : r.catalog.Consistent := by
    rw [show r.catalog = _ from catalog_run _ ops]
    exact (Catalog.consistent_empty.run earlier).run _
  refine ⟨fun spec type found hfound => ?_, fun p s d hcatalog hd => ?_⟩
  · rw [(hcoherent.lookup (.text spec) type).2] at hfound
    have hgrounded := Resolution.grounded_ofTarget hconsistent hfound
    exact ⟨hgrounded, fun d hd => hconsistent.exists_accepted? (hgrounded.current hd)⟩
  · rw [hcatalog] at hd ⊢
    exact hconsistent.exists_accepted? (Resolution.current_of_strict hconsistent hd)

/-- Two lamps of one label, one of them with an alias, and a radio that was found by its alias before it was
removed. -/
def lampOps : List Operation :=
  let thing (uid label location : String) : Operation :=
    .catalog (.addThing uid (some label) (some location) none)
  let power (thing : String) : Operation := .catalog (.addChannel thing "power" [.onOff] false)
  [thing "left" "Lamp" "Hall", thing "right" "Lamp" "Attic", thing "radio" "Radio" "Hall",
    power "left", power "right", power "radio",
    .aliases (.register "light" ⟨.channel, .text "left:power"⟩),
    .aliases (.register "music" ⟨.channel, .text "radio:power"⟩),
    .lookup (.text "music") none, .catalog (.removeThing "radio")]

theorem lookup_never_dangles_lamps :
    let r := (ofSources (Catalog.run {} []) {}).run lampOps
    let find (spec : String) (type : Option ValueType) : Resolution :=
      ((r.lookup (.text spec) type).2.toOption).getD default
    (find "Lamp" none).status = .ambiguous ∧ (find "Lamp" none).Grounded r.catalog none ∧
      (find "light" (some .status)).reference = some ⟨⟨.thing, "left"⟩, some "Hall", some "Lamp"⟩ ∧
      (find "light" (some .status)).Grounded r.catalog (some .status) ∧
      (find "music" none).status = .notFound ∧ (find "music" none).Grounded r.catalog none ∧
      ∃ accepted, r.catalog.accepted? ⟨.channel, "left:power"⟩ = some accepted := by
  intro r find
  obtain ⟨hfind, hstrict⟩ := lookup_never_dangles [] {} lampOps
  have hlamp : (r.lookup (.text "Lamp") none).2 = .ok (find "Lamp" none) := by rfl
  have hlight : (r.lookup (.text "light") (some .status)).2 = .ok (find "light" (some .status)) := by rfl
  have hmusic : (r.lookup (.text "music") none).2 = .ok (find "music" none) := by rfl
  have haccepted := hstrict { kind := .is, target := .text "light", value := .absent }
    { (default : Situation) with aliases := r.aliases, catalog := r.catalog }
    ⟨⟨.channel, "left:power"⟩, some "Hall", some "Lamp"⟩ rfl (by rfl)
  exact ⟨by decide +kernel, (hfind _ _ _ hlamp).1, by decide +kernel, (hfind _ _ _ hlight).1,
    by decide +kernel, (hfind _ _ _ hmusic).1, haccepted⟩

end Resolver
end Domotics
