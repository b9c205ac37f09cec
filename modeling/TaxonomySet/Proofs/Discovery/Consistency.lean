import TaxonomySet.Proofs.Discovery.Steps

namespace TaxonomySet.Discovery

/-- What each step of a discovery keeps. -/
structure Sound (seen : SortedSet String) (queue : List Pending) (d : Discovery) : Prop where
  consistent : d.dts.Consistent
  mem_seen : ∀ {l i}, d.dts.byLocation.get? l = some i → seen.contains l = true
  including : ∀ p ∈ queue, ∀ i, p.origin = .including i → i < d.dts.taxonomies.length

namespace Sound

variable {seen : SortedSet String} {queue : List Pending} {d : Discovery}

theorem of_dts (h : d.Sound seen queue) {d' : Discovery} (hdts : d'.dts = d.dts) : d'.Sound seen queue where
  consistent := hdts ▸ h.consistent
  mem_seen hl := h.mem_seen (hdts ▸ hl)
  including := hdts ▸ h.including

theorem see (h : d.Sound seen queue) (l : String) : d.Sound (seen.insert l) queue where
  consistent := h.consistent
  mem_seen hl := contains_insert_of_contains (h.mem_seen hl)
  including := h.including

theorem of_queue (h : d.Sound seen queue) {queue' : List Pending}
    (hsub : ∀ p ∈ queue', p ∈ queue ∨ ∀ i, p.origin ≠ .including i) : d.Sound seen queue' where
  consistent := h.consistent
  mem_seen := h.mem_seen
  including p hp i hi := by
    rcases hsub p hp with hp | hnone
    · exact h.including p hp i hi
    · exact absurd hi (hnone i)

theorem byLocation_eq_none (h : d.Sound seen queue) {l : String} (hfresh : ¬ seen.contains l = true) :
    d.dts.byLocation.get? l = none := by
  cases hl : d.dts.byLocation.get? l with
  | none => rfl
  | some i => exact absurd (h.mem_seen hl) hfresh

end Sound

theorem consistent_addSchema {d : Discovery} (h : d.dts.Consistent) (taxonomy : Nat) (s : Schema)
    (root : Markup.Node) : (d.addSchema taxonomy s root).dts.Consistent := by
  rw [addSchema_dts]
  refine (h.withRegistry (h.keyed.addAll _ _)).modifyTaxonomy (fun t _ => t.ns_addSchema s)
    (fun t _ => t.documents_addSchema s) fun t _ r hr => ?_
  rw [Taxonomy.linkbases_addSchema] at hr
  exact (List.mem_append.1 hr).imp_right Taxonomy.links_of_mem_recordsOf

theorem Sound.enter {seen : SortedSet String} {queue : List Pending} {d d' : Discovery} (h : d.Sound seen queue)
    {location : String} (hfresh : ¬ seen.contains location = true) {origin : Origin}
    (horigin : ∀ i, origin = .including i → i < d.dts.taxonomies.length) {root : Markup.Node} {i : Nat}
    {more : List Pending} (henter : d.enter location origin root = .ok (d', i, more)) :
    d'.Sound (seen.insert location) (queue ++ more) := by
  have hnone := h.byLocation_eq_none hfresh
  -- a location under which a taxonomy is found afterwards is the new one or was there before
  have hseen {m : SortedMap String Nat} {j : Nat} (hm : m = d.dts.byLocation.insert location j) {l : String}
      {k : Nat} (hl : m.get? l = some k) : (seen.insert location).contains l = true := by
    subst hm
    by_cases heq : l = location
    · subst heq
      simp [SortedSet.contains_insert]
    · rw [SortedMap.get?_insert_of_ne _ _ heq] at hl
      exact contains_insert_of_contains (h.mem_seen hl)
  have hqueue {n : Nat} (hle : d.dts.taxonomies.length ≤ n) {t : Nat} (ht : t < n) {s : Schema} :
      ∀ p ∈ queue ++ pendingOf s t, ∀ j, p.origin = .including j → j < n := by
    intro p hp j hj
    rcases List.mem_append.1 hp with hp | hp
    · exact Nat.lt_of_lt_of_le (h.including p hp j hj) hle
    · rwa [mem_pendingOf hp hj]
  have hregister : (d.dts.registerLocation location i).taxonomies.length = d.dts.taxonomies.length :=
    List.length_modify _ _ _
  obtain ⟨_, s, ds, -, -, ⟨rfl, rfl, rfl⟩ | ⟨rfl, hns, rfl⟩ | ⟨rfl, hns, rfl, rfl⟩⟩ := enter_cases henter
  · have hi := horigin i rfl
    refine ⟨consistent_addSchema (h.consistent.registerLocation hnone hi) _ _ _, fun {l k} hl => ?_, ?_⟩
    · rw [byLocation_addSchema] at hl
      exact hseen rfl hl
    · rw [length_taxonomies_addSchema, hregister]
      exact hqueue (Nat.le_refl _) hi
  · obtain ⟨t, ht, -⟩ := h.consistent.byNamespace.1 hns
    have hi := (List.getElem?_eq_some_iff.1 ht).1
    refine ⟨h.consistent.registerLocation hnone hi, fun {l k} hl => hseen rfl hl, ?_⟩
    rw [hregister, List.append_nil]
    exact h.including
  · have hadd : (d.dts.addTaxonomy (.start s.ns location s.nsPrefix)).Consistent := by
      refine h.consistent.addTaxonomy hns (fun l hl => ?_) rfl
      rw [List.mem_singleton.1 (SortedSet.mem_ofList.1 hl), hnone]
    refine ⟨consistent_addSchema hadd _ _ _, fun {l k} hl => ?_, ?_⟩
    · rw [byLocation_addSchema] at hl
      exact hseen rfl hl
    · rw [length_taxonomies_addSchema]
      have hlength : (d.dts.addTaxonomy (.start s.ns location s.nsPrefix)).taxonomies.length =
          d.dts.taxonomies.length + 1 := List.length_append
      rw [hlength]
      exact hqueue (Nat.le_succ _) (Nat.lt_succ_self _)

theorem stable_sound (store : Store) : Stable store fun seen queue d => d.Sound seen queue where
  skip h _ := h.of_queue fun _ hp => .inl (List.mem_cons_of_mem _ hp)
  leave h _ _ hdts _ _ :=
    ((h.of_queue fun _ hp => .inl (List.mem_cons_of_mem _ hp)).see _).of_dts hdts
  enter {seen p queue d d' i more root} h hfresh _ henter := by
    have hasked : (d.ask p.location).Sound seen (p :: queue) := h.of_dts rfl
    exact (hasked.of_queue fun _ hq => .inl (List.mem_cons_of_mem _ hq)).enter (Bool.eq_false_iff.1 hfresh)
      (h.including p List.mem_cons_self) henter
  main _ h := ⟨h.consistent.withMain _, h.mem_seen, h.including⟩

theorem Sound.addLinkbases {seen : SortedSet String} {d : Discovery} (h : d.Sound seen [])
    (linkbases : List (String × Markup.Node)) : (d.addLinkbases linkbases).Sound seen [] := by
  refine List.foldlRecOn _ _ h fun d hd linkbase _ => ?_
  exact ⟨hd.consistent.addLinkbase _ _, hd.mem_seen, fun p hp => by cases hp⟩

theorem Sound.round (store : Store) (locators : Bool) {seen : SortedSet String} {d : Discovery}
    (h : d.Sound seen []) : (round store locators seen d).2.Sound (round store locators seen d).1 [] := by
  have htaken : (d.takeLinkbases store).1.Sound seen [] := h.of_dts (takeLinkbases_loaded store d).1
  refine Sound.addLinkbases ((stable_sound store).drain _ (htaken.of_queue fun p hp => .inr fun i hi => ?_)) _
  split at hp
  · obtain ⟨⟨location, tree⟩, -, hp⟩ := List.mem_flatMap.1 hp
    obtain ⟨l, -, rfl⟩ := List.mem_map.1 hp
    cases hi
  · cases hp

theorem Sound.push {seen : SortedSet String} {queue : List Pending} {d : Discovery} (h : d.Sound seen queue)
    (entry : String) : d.Sound seen (.of entry .entry :: queue) := by
  refine h.of_queue fun p hp => ?_
  rcases List.mem_cons.1 hp with rfl | hp
  · exact .inr fun i hi => by cases hi
  · exact .inl hp

theorem sound_empty (journal : Journal) : Sound ∅ [] { dts := {}, journal := journal } where
  consistent := Dts.consistent_empty
  mem_seen hl := by cases hl
  including _ hp := by cases hp

/-- Whatever is loaded from nothing is consistent. -/
theorem consistent_load (store : Store) (options : Options) (entries : List String) (journal : Journal) :
    (load store options entries { dts := {}, journal := journal }).1.dts.Consistent := by
  have hentered := (stable_sound store).enterEntries entries (p := { discovery := { dts := {}, journal := journal } })
    (fun h e _ => h.push e) (sound_empty journal)
  unfold load
  split
  · exact Dts.consistent_empty
  · split
    · rename_i heq
      rw [heq] at hentered
      exact hentered.consistent
    · rename_i p heq
      rw [heq] at hentered
      have hstarted := (stable_sound store).drain p.queue ((stable_sound store).main p.entries hentered)
      dsimp only
      split
      · exact (rounds_induction (P := fun seen d => d.Sound seen [])
          (fun h => h.round store options.locators) hstarted).1.consistent
      · exact hstarted.consistent

end TaxonomySet.Discovery

namespace TaxonomySet.Session

theorem consistent_load (store : Store) (options : Discovery.Options) (entries : List String) (journal : Journal) :
    (load { journal := journal } store options entries).1.dts.Consistent := by
  have hload := Discovery.consistent_load store options entries journal
  unfold load
  split
  rename_i d result heq
  rw [heq] at hload
  cases result <;> exact hload

end TaxonomySet.Session
