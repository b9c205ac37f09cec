import TaxonomySet.Dts.Basic
import TaxonomySet.Proofs.Role.Registration

namespace TaxonomySet

theorem SortedMap.get?_foldl_insert {κ α : Type} [Ord κ] [Std.TransOrd κ] [Std.LawfulEqOrd κ] [DecidableEq κ]
    (ks : List κ) (f : κ → α) (m : SortedMap κ α) (k : κ) :
    (ks.foldl (fun m k => m.insert k (f k)) m).get? k = if k ∈ ks then some (f k) else m.get? k := by
  induction ks generalizing m with
  | nil => simp
  | cons j ks ih =>
    rw [List.foldl_cons, ih]
    by_cases hk : k = j
    · subst hk
      simp [get?_insert_self]
    · simp [get?_insert_of_ne _ _ hk, hk]

namespace Taxonomy

/-- Declared elements leave all but the elements of a taxonomy as it is. -/
theorem value_foldl_declare (document : String) (es : List Element) (acc : Reported Taxonomy) :
    ∃ elements ids, (es.foldl (declare document) acc).value = { acc.value with elements := elements, ids := ids } := by
  induction es generalizing acc with
  | nil => exact ⟨_, _, rfl⟩
  | cons e es ih =>
    obtain ⟨elements, ids, hrest⟩ := ih (declare document acc e)
    rw [List.foldl_cons, hrest]
    unfold declare
    split
    · exact ⟨elements, ids, rfl⟩
    · exact ⟨elements, ids, rfl⟩

theorem ns_addSchema (t : Taxonomy) (s : Schema) : (t.addSchema s).value.ns = t.ns := by
  obtain ⟨_, _, h⟩ := value_foldl_declare s.location s.elements ⟨t, []⟩
  exact (congrArg Taxonomy.ns h :)

theorem location_addSchema (t : Taxonomy) (s : Schema) : (t.addSchema s).value.location = t.location := by
  obtain ⟨_, _, h⟩ := value_foldl_declare s.location s.elements ⟨t, []⟩
  exact (congrArg Taxonomy.location h :)

theorem documents_addSchema (t : Taxonomy) (s : Schema) : (t.addSchema s).value.documents = t.documents := by
  obtain ⟨_, _, h⟩ := value_foldl_declare s.location s.elements ⟨t, []⟩
  exact (congrArg Taxonomy.documents h :)

theorem imports_addSchema (t : Taxonomy) (s : Schema) :
    (t.addSchema s).value.imports = t.imports.insertAll (s.imports.map (·.location)) := by
  obtain ⟨_, _, h⟩ := value_foldl_declare s.location s.elements ⟨t, []⟩
  exact congrArg (·.imports.insertAll (s.imports.map (·.location))) h

theorem includes_addSchema (t : Taxonomy) (s : Schema) :
    (t.addSchema s).value.includes = t.includes.insertAll s.includes := by
  obtain ⟨_, _, h⟩ := value_foldl_declare s.location s.elements ⟨t, []⟩
  exact congrArg (·.includes.insertAll s.includes) h

theorem linkbases_addSchema (t : Taxonomy) (s : Schema) :
    (t.addSchema s).value.linkbases = t.linkbases ++ recordsOf s := by
  obtain ⟨_, _, h⟩ := value_foldl_declare s.location s.elements ⟨t, []⟩
  exact congrArg (·.linkbases ++ recordsOf s) h

/-- The links of a new record are not known yet. -/
theorem links_of_mem_recordsOf {s : Schema} {r : LinkbaseRecord} (h : r ∈ recordsOf s) : r.links = [] := by
  unfold recordsOf at h
  rcases List.mem_append.1 h with h | h
  · obtain ⟨ref, -, rfl⟩ := List.mem_map.1 h
    rfl
  · split at h
    · rw [List.mem_singleton.1 h]
    · cases h

end Taxonomy

namespace Dts

/-- The look-ups by namespace and by document find what they should. A document of several
taxonomies is found in one of them. -/
structure Indexed (d : Dts) : Prop where
  byNamespace : ∀ {ns i}, d.byNamespace.get? ns = some i ↔ ∃ t, d.taxonomies[i]? = some t ∧ t.ns = ns
  byLocation : ∀ {l i}, d.byLocation.get? l = some i → ∃ t, d.taxonomies[i]? = some t ∧ l ∈ t.documents
  located : ∀ {t l}, t ∈ d.taxonomies → l ∈ t.documents → ∃ i, d.byLocation.get? l = some i

theorem indexed_empty : Indexed {} where
  byNamespace := by simp
  byLocation h := by cases h
  located h := by cases h

/-- The look-ups do not depend on more than namespaces and documents. -/
theorem Indexed.congr {d d' : Dts} (h : d.Indexed) (hns : d'.byNamespace = d.byNamespace)
    (hlocation : d'.byLocation = d.byLocation)
    (htaxonomies : d'.taxonomies.map (fun t => (t.ns, t.documents)) =
      d.taxonomies.map fun t => (t.ns, t.documents)) : d'.Indexed := by
  have hsome {d d' : Dts} (heq : d'.taxonomies.map (fun t => (t.ns, t.documents)) =
      d.taxonomies.map fun t => (t.ns, t.documents)) {i : Nat} {t : Taxonomy} (ht : d.taxonomies[i]? = some t) :
      ∃ t', d'.taxonomies[i]? = some t' ∧ t'.ns = t.ns ∧ t'.documents = t.documents := by
    have hi := congrArg (·[i]?) heq
    simp only [List.getElem?_map, ht, Option.map_some, Option.map_eq_some_iff, Prod.mk.injEq] at hi
    exact hi
  refine ⟨fun {ns i} => ?_, fun {l i} hl => ?_, fun {t l} ht hl => ?_⟩
  · rw [hns, h.byNamespace]
    constructor
    · rintro ⟨t, ht, rfl⟩
      obtain ⟨t', ht', heq, -⟩ := hsome htaxonomies ht
      exact ⟨t', ht', heq⟩
    · rintro ⟨t, ht, rfl⟩
      obtain ⟨t', ht', heq, -⟩ := hsome htaxonomies.symm ht
      exact ⟨t', ht', heq⟩
  · rw [hlocation] at hl
    obtain ⟨t, ht, hmem⟩ := h.byLocation hl
    obtain ⟨t', ht', -, heq⟩ := hsome htaxonomies ht
    exact ⟨t', ht', heq ▸ hmem⟩
  · obtain ⟨i, hi⟩ := List.mem_iff_getElem?.1 ht
    obtain ⟨t', ht', -, heq⟩ := hsome htaxonomies.symm hi
    rw [hlocation]
    exact h.located (List.mem_of_getElem? ht') (heq ▸ hl)

theorem Indexed.addTaxonomy {d : Dts} (h : d.Indexed) {t : Taxonomy} (hns : d.byNamespace.get? t.ns = none) :
    (d.addTaxonomy t).Indexed := by
  have hold {i : Nat} {u : Taxonomy} (hu : d.taxonomies[i]? = some u) :
      (d.taxonomies ++ [t])[i]? = some u := by
    rw [List.getElem?_append_left (List.getElem?_eq_some_iff.1 hu).1, hu]
  refine ⟨fun {ns i} => ?_, fun {l i} hl => ?_, fun {u l} hu hl => ?_⟩
  · change (d.byNamespace.insert t.ns d.taxonomies.length).get? ns = some i ↔
      ∃ u, (d.taxonomies ++ [t])[i]? = some u ∧ u.ns = ns
    by_cases heq : ns = t.ns
    · subst heq
      rw [SortedMap.get?_insert_self, Option.some_inj]
      constructor
      · rintro rfl
        exact ⟨t, List.getElem?_concat_length, rfl⟩
      · rintro ⟨u, hu, heq⟩
        by_contra hne
        rcases Nat.lt_or_gt_of_ne hne with hlt | hgt
        · rw [List.getElem?_eq_none (by simp; omega)] at hu
          cases hu
        · rw [List.getElem?_append_left hgt] at hu
          rw [h.byNamespace.2 ⟨u, hu, heq⟩] at hns
          cases hns
    · rw [SortedMap.get?_insert_of_ne _ _ heq, h.byNamespace]
      constructor
      · rintro ⟨u, hu, rfl⟩
        exact ⟨u, hold hu, rfl⟩
      · rintro ⟨u, hu, rfl⟩
        refine ⟨u, ?_, rfl⟩
        rcases Nat.lt_or_ge i d.taxonomies.length with hlt | hge
        · rwa [List.getElem?_append_left hlt] at hu
        · have hmem := List.mem_of_getElem? ((List.getElem?_append_right hge).symm.trans hu)
          exact absurd (congrArg Taxonomy.ns (List.mem_singleton.1 hmem)) heq
  · change (t.documents.toList.foldl (fun m l => m.insert l d.taxonomies.length) d.byLocation).get? l = _ at hl
    rw [SortedMap.get?_foldl_insert] at hl
    split at hl
    · rename_i hmem
      cases hl
      exact ⟨t, List.getElem?_concat_length, SortedSet.mem_toList.1 hmem⟩
    · obtain ⟨u, hu, hmem⟩ := h.byLocation hl
      exact ⟨u, hold hu, hmem⟩
  · change ∃ i, (t.documents.toList.foldl (fun m l => m.insert l d.taxonomies.length) d.byLocation).get? l = _
    rw [SortedMap.get?_foldl_insert]
    split
    · exact ⟨_, rfl⟩
    · rename_i hnot
      rcases List.mem_append.1 hu with hu | hu
      · exact h.located hu hl
      · rw [List.mem_singleton.1 hu] at hl
        exact absurd (SortedSet.mem_toList.2 hl) hnot

theorem get?_indexResources_of_ne (m : SortedMap String (SortedMap String Resource)) {l : ExtendedLink}
    {document : String} (h : document ≠ l.document) : (indexResources m l).get? document = m.get? document := by
  unfold indexResources
  induction l.resources.values.flatten generalizing m with
  | nil => rfl
  | cons r rs ih =>
    rw [List.foldl_cons, ih]
    split
    · exact SortedMap.get?_alter_of_ne _ _ h
    · rfl

theorem get?_indexResources_congr {m m' : SortedMap String (SortedMap String Resource)} {document : String}
    (h : m.get? document = m'.get? document) (l : ExtendedLink) :
    (indexResources m l).get? document = (indexResources m' l).get? document := by
  unfold indexResources
  induction l.resources.values.flatten generalizing m m' with
  | nil => exact h
  | cons r rs ih =>
    rw [List.foldl_cons, List.foldl_cons]
    refine ih ?_
    split
    · by_cases hdocument : document = l.document
      · subst hdocument
        rw [SortedMap.get?_alter_self, SortedMap.get?_alter_self, h]
      · rw [SortedMap.get?_alter_of_ne _ _ hdocument, SortedMap.get?_alter_of_ne _ _ hdocument, h]
    · exact h

/-- The resources of a document are those of its links. -/
theorem get?_foldl_indexResources {m m' : SortedMap String (SortedMap String Resource)} {document : String}
    (h : m.get? document = m'.get? document) (links : List ExtendedLink) :
    (links.foldl indexResources m).get? document =
      ((links.filter fun l => l.document == document).foldl indexResources m').get? document := by
  induction links generalizing m m' with
  | nil => exact h
  | cons l links ih =>
    rw [List.foldl_cons]
    by_cases hl : l.document = document
    · rw [List.filter_cons_of_pos (by simpa using hl), List.foldl_cons]
      exact ih (get?_indexResources_congr h l)
    · rw [List.filter_cons_of_neg (by simpa using hl)]
      exact ih ((get?_indexResources_of_ne m fun heq => hl heq.symm).trans h)

/-- What a taxonomy set is that has been loaded: no document is shared by taxonomies, declarations
are kept under their URIs, records refer to links that are there, and the resources are those of the
links. -/
structure Consistent (d : Dts) : Prop extends Indexed d where
  own : ∀ {i t l}, d.taxonomies[i]? = some t → l ∈ t.documents → d.byLocation.get? l = some i
  keyed : d.registry.Keyed
  numbered : ∀ t ∈ d.taxonomies, ∀ r ∈ t.linkbases, ∀ i ∈ r.links, i < d.links.length
  resources_eq : d.resources = d.links.foldl indexResources ∅

theorem consistent_empty : Consistent {} where
  toIndexed := indexed_empty
  own h := by cases h
  keyed := Registry.keyed_empty
  numbered _ h := by cases h
  resources_eq := rfl

theorem Consistent.addTaxonomy {d : Dts} (h : d.Consistent) {t : Taxonomy} (hns : d.byNamespace.get? t.ns = none)
    (hdocuments : ∀ l ∈ t.documents, d.byLocation.get? l = none) (hlinkbases : t.linkbases = []) :
    (d.addTaxonomy t).Consistent := by
  refine ⟨h.toIndexed.addTaxonomy hns, fun {i u l} hu hl => ?_, h.keyed, fun u hu r hr => ?_, h.resources_eq⟩
  · change (t.documents.toList.foldl (fun m l => m.insert l d.taxonomies.length) d.byLocation).get? l = _
    rw [SortedMap.get?_foldl_insert]
    change (d.taxonomies ++ [t])[i]? = some u at hu
    rcases Nat.lt_trichotomy i d.taxonomies.length with hlt | rfl | hgt
    · rw [List.getElem?_append_left hlt] at hu
      have hi := h.own hu hl
      rw [if_neg fun hmem => ?_, hi]
      rw [hdocuments l (SortedSet.mem_toList.1 hmem)] at hi
      cases hi
    · rw [List.getElem?_concat_length, Option.some_inj] at hu
      subst hu
      rw [if_pos (SortedSet.mem_toList.2 hl)]
    · rw [List.getElem?_eq_none (by simp; omega)] at hu
      cases hu
  · rcases List.mem_append.1 hu with hu | hu
    · exact h.numbered u hu r hr
    · rw [List.mem_singleton.1 hu, hlinkbases] at hr
      cases hr

/-- A taxonomy may change as long as its namespace and its documents stay, and new records name no
links yet. -/
theorem Consistent.modifyTaxonomy {d : Dts} (h : d.Consistent) {id : Nat} {f : Taxonomy → Taxonomy}
    (hns : ∀ t, d.taxonomies[id]? = some t → (f t).ns = t.ns)
    (hdocuments : ∀ t, d.taxonomies[id]? = some t → (f t).documents = t.documents)
    (hlinkbases : ∀ t, d.taxonomies[id]? = some t → ∀ r ∈ (f t).linkbases, r ∈ t.linkbases ∨ r.links = []) :
    (d.modifyTaxonomy id f).Consistent := by
  have hold {i : Nat} {u : Taxonomy} (hu : (d.taxonomies.modify id f)[i]? = some u) :
      ∃ t, d.taxonomies[i]? = some t ∧ (u = t ∨ i = id ∧ u = f t) := by
    rw [List.getElem?_modify] at hu
    obtain ⟨t, ht, rfl⟩ := Option.map_eq_some_iff.1 hu
    refine ⟨t, ht, ?_⟩
    split
    · rename_i heq
      exact .inr ⟨heq.symm, rfl⟩
    · exact .inl rfl
  have hextent {i : Nat} {u t : Taxonomy} (ht : d.taxonomies[i]? = some t) (hu : u = t ∨ i = id ∧ u = f t) :
      u.ns = t.ns ∧ u.documents = t.documents := by
    rcases hu with rfl | ⟨rfl, rfl⟩
    · exact ⟨rfl, rfl⟩
    · exact ⟨hns t ht, hdocuments t ht⟩
  refine ⟨h.toIndexed.congr rfl rfl (List.ext_getElem? fun i => ?_), fun {i u l} hu hl => ?_, h.keyed,
    fun u hu r hr => ?_, h.resources_eq⟩
  · rw [List.getElem?_map, List.getElem?_map]
    change ((d.taxonomies.modify id f)[i]?).map _ = _
    cases hu : (d.taxonomies.modify id f)[i]? with
    | none =>
      rw [List.getElem?_modify, Option.map_eq_map, Option.map_eq_none_iff] at hu
      rw [hu]
    | some u =>
      obtain ⟨t, ht, hcases⟩ := hold hu
      obtain ⟨hns, hdocuments⟩ := hextent ht hcases
      rw [ht, Option.map_some, Option.map_some, hns, hdocuments]
  · obtain ⟨t, ht, hcases⟩ := hold hu
    exact h.own ht ((hextent ht hcases).2 ▸ hl)
  · obtain ⟨i, hi⟩ := List.mem_iff_getElem?.1 hu
    obtain ⟨t, ht, hcases⟩ := hold hi
    have hmem := List.mem_of_getElem? ht
    rcases hcases with rfl | ⟨rfl, rfl⟩
    · exact h.numbered u hmem r hr
    · rcases hlinkbases t ht r hr with hr | hr
      · exact h.numbered t hmem r hr
      · rw [hr]
        exact fun _ hi => by cases hi

theorem Consistent.registerLocation {d : Dts} (h : d.Consistent) {location : String} {id : Nat}
    (hfresh : d.byLocation.get? location = none) (hid : id < d.taxonomies.length) :
    (d.registerLocation location id).Consistent := by
  have hold {i : Nat} {u : Taxonomy}
      (hu : (d.taxonomies.modify id fun t => { t with documents := t.documents.insert location })[i]? = some u) :
      ∃ t, d.taxonomies[i]? = some t ∧ u.ns = t.ns ∧ u.linkbases = t.linkbases ∧
        ∀ l, l ∈ u.documents ↔ i = id ∧ l = location ∨ l ∈ t.documents := by
    rw [List.getElem?_modify] at hu
    obtain ⟨t, ht, rfl⟩ := Option.map_eq_some_iff.1 hu
    refine ⟨t, ht, ?_⟩
    split
    · rename_i heq
      subst heq
      exact ⟨rfl, rfl, fun l => by simp [SortedSet.mem_insert]⟩
    · rename_i hne
      exact ⟨rfl, rfl, fun l => by simp [Ne.symm hne]⟩
  have hnew {i : Nat} {t : Taxonomy} (ht : d.taxonomies[i]? = some t) : ∃ u,
      (d.taxonomies.modify id fun t => { t with documents := t.documents.insert location })[i]? = some u ∧
        u.ns = t.ns ∧ ∀ l, l ∈ u.documents ↔ i = id ∧ l = location ∨ l ∈ t.documents := by
    cases hu : (d.taxonomies.modify id fun t => { t with documents := t.documents.insert location })[i]? with
    | none =>
      rw [List.getElem?_modify, ht] at hu
      cases hu
    | some u =>
      obtain ⟨t', ht', hns, -, hdocuments⟩ := hold hu
      cases ht.symm.trans ht'
      exact ⟨u, rfl, hns, hdocuments⟩
  have hown {i : Nat} {u : Taxonomy} {l : String}
      (hu : (d.taxonomies.modify id fun t => { t with documents := t.documents.insert location })[i]? = some u)
      (hl : l ∈ u.documents) : (d.byLocation.insert location id).get? l = some i := by
    obtain ⟨t, ht, -, -, hdocuments⟩ := hold hu
    rcases (hdocuments l).1 hl with ⟨rfl, rfl⟩ | hl
    · exact SortedMap.get?_insert_self _ _ _
    · have hi := h.own ht hl
      rw [SortedMap.get?_insert_of_ne, hi]
      rintro rfl
      rw [hfresh] at hi
      cases hi
  refine ⟨⟨fun {ns i} => ?_, fun {l i} hl => ?_, fun {u l} hu hl => ?_⟩, hown, h.keyed,
    fun u hu r hr => ?_, h.resources_eq⟩
  · refine h.byNamespace.trans ⟨?_, ?_⟩
    · rintro ⟨t, ht, rfl⟩
      obtain ⟨u, hu, hns, -⟩ := hnew ht
      exact ⟨u, hu, hns⟩
    · rintro ⟨u, hu, rfl⟩
      obtain ⟨t, ht, hns, -⟩ := hold hu
      exact ⟨t, ht, hns.symm⟩
  · change (d.byLocation.insert location id).get? l = some i at hl
    by_cases heq : l = location
    · subst heq
      rw [SortedMap.get?_insert_self, Option.some_inj] at hl
      subst hl
      obtain ⟨u, hu, -, hdocuments⟩ := hnew (List.getElem?_eq_getElem hid)
      exact ⟨u, hu, (hdocuments l).2 (.inl ⟨rfl, rfl⟩)⟩
    · rw [SortedMap.get?_insert_of_ne _ _ heq] at hl
      obtain ⟨t, ht, hmem⟩ := h.byLocation hl
      obtain ⟨u, hu, -, hdocuments⟩ := hnew ht
      exact ⟨u, hu, (hdocuments l).2 (.inr hmem)⟩
  · obtain ⟨i, hi⟩ := List.mem_iff_getElem?.1 hu
    exact ⟨i, hown hi hl⟩
  · obtain ⟨i, hi⟩ := List.mem_iff_getElem?.1 hu
    obtain ⟨t, ht, -, hlinkbases, -⟩ := hold hi
    exact h.numbered t (List.mem_of_getElem? ht) r (hlinkbases ▸ hr)

theorem Consistent.addLinkbase {d : Dts} (h : d.Consistent) (location : String) (links : List ExtendedLink) :
    (d.addLinkbase location links).Consistent := by
  refine ⟨h.toIndexed.congr rfl rfl ?_, fun {i u l} hu hl => ?_, h.keyed, fun u hu r hr j hj => ?_, ?_⟩
  · change (d.taxonomies.map (·.attach location (d.nextLinks links))).map _ = _
    rw [List.map_map]
    rfl
  · change (d.taxonomies.map (·.attach location (d.nextLinks links)))[i]? = some u at hu
    rw [List.getElem?_map] at hu
    obtain ⟨t, ht, rfl⟩ := Option.map_eq_some_iff.1 hu
    exact h.own ht hl
  · change j < (d.links ++ links).length
    rw [List.length_append]
    obtain ⟨t, ht, rfl⟩ := List.mem_map.1 hu
    obtain ⟨r, hr', rfl⟩ := List.mem_map.1 hr
    have hold : ∀ j ∈ r.links, j < d.links.length := h.numbered t ht r hr'
    split at hj
    · rcases List.mem_append.1 hj with hj | hj
      · exact Nat.lt_add_right _ (hold j hj)
      · obtain ⟨n, hn, rfl⟩ := List.mem_map.1 hj
        exact Nat.add_lt_add_left (List.mem_range.1 hn) _
    · exact Nat.lt_add_right _ (hold j hj)
  · change links.foldl indexResources d.resources = (d.links ++ links).foldl indexResources ∅
    rw [List.foldl_append, h.resources_eq]

/-- Only what belongs to the declarations and to the main namespace may be set otherwise. -/
theorem Consistent.withRegistry {d : Dts} (h : d.Consistent) {r : Registry} (hr : r.Keyed) :
    ({ d with registry := r } : Dts).Consistent :=
  ⟨⟨h.byNamespace, h.byLocation, h.located⟩, h.own, hr, h.numbered, h.resources_eq⟩

theorem Consistent.withMain {d : Dts} (h : d.Consistent) (main : Option String) :
    ({ d with mainNamespace := main } : Dts).Consistent :=
  ⟨⟨h.byNamespace, h.byLocation, h.located⟩, h.own, h.keyed, h.numbered, h.resources_eq⟩

end Dts

end TaxonomySet
