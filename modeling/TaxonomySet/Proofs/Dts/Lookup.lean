import TaxonomySet.Proofs.Dts
import TaxonomySet.Proofs.Order

namespace TaxonomySet.Dts

theorem Indexed.nodup_ns {d : Dts} (h : d.Indexed) : (d.taxonomies.map (·.ns)).Nodup := by
  rw [List.nodup_iff_getElem?_ne_getElem?]
  intro i j hij hj heq
  rw [List.getElem?_map, List.getElem?_map] at heq
  rw [List.length_map] at hj
  have hjsome := List.getElem?_eq_getElem hj
  have hisome := List.getElem?_eq_getElem (Nat.lt_trans hij hj)
  rw [hjsome, hisome, Option.map_some, Option.map_some, Option.some_inj] at heq
  have hi := h.byNamespace.2 ⟨_, hisome, heq⟩
  rw [h.byNamespace.2 ⟨_, hjsome, rfl⟩, Option.some_inj] at hi
  omega

theorem Indexed.byNamespace_eq_none_iff {d : Dts} (h : d.Indexed) {ns : String} :
    d.byNamespace.get? ns = none ↔ ∀ t ∈ d.taxonomies, t.ns ≠ ns := by
  constructor
  · intro hnone t ht hns
    obtain ⟨i, hi⟩ := List.mem_iff_getElem?.1 ht
    rw [h.byNamespace.2 ⟨t, hi, hns⟩] at hnone
    cases hnone
  · intro hall
    cases hget : d.byNamespace.get? ns with
    | none => rfl
    | some i =>
      obtain ⟨t, ht, hns⟩ := h.byNamespace.1 hget
      exact absurd hns (hall t (List.mem_of_getElem? ht))

theorem Indexed.taxonomyOf?_eq_some_iff {d : Dts} (h : d.Indexed) {ns : String} {t : Taxonomy} :
    d.taxonomyOf? ns = some t ↔ t ∈ d.taxonomies ∧ t.ns = ns := by
  unfold taxonomyOf?
  rw [Option.bind_eq_some_iff]
  constructor
  · rintro ⟨i, hi, ht⟩
    obtain ⟨u, hu, hns⟩ := h.byNamespace.1 hi
    cases ht.symm.trans hu
    exact ⟨List.mem_of_getElem? ht, hns⟩
  · rintro ⟨ht, hns⟩
    obtain ⟨i, hi⟩ := List.mem_iff_getElem?.1 ht
    exact ⟨i, h.byNamespace.2 ⟨t, hi, hns⟩, hi⟩

theorem taxonomyAt?_eq_some {d : Dts} (h : d.Indexed) {l : String} {t : Taxonomy} (ht : d.taxonomyAt? l = some t) :
    t ∈ d.taxonomies ∧ l ∈ t.documents := by
  obtain ⟨i, hi, ht⟩ := Option.bind_eq_some_iff.1 ht
  obtain ⟨u, hu, hl⟩ := h.byLocation hi
  cases ht.symm.trans hu
  exact ⟨List.mem_of_getElem? ht, hl⟩

theorem exists_taxonomyAt? {d : Dts} (h : d.Indexed) {l : String} {t : Taxonomy} (ht : t ∈ d.taxonomies)
    (hl : l ∈ t.documents) : ∃ u, d.taxonomyAt? l = some u := by
  obtain ⟨i, hi⟩ := h.located ht hl
  obtain ⟨u, hu, -⟩ := h.byLocation hi
  refine ⟨u, ?_⟩
  unfold taxonomyAt?
  rw [hi, Option.bind_some, hu]

theorem Consistent.taxonomyAt?_of_mem {d : Dts} (h : d.Consistent) {l : String} {t : Taxonomy}
    (ht : t ∈ d.taxonomies) (hl : l ∈ t.documents) : d.taxonomyAt? l = some t := by
  obtain ⟨i, hi⟩ := List.mem_iff_getElem?.1 ht
  unfold taxonomyAt?
  rw [h.own hi hl, Option.bind_some, hi]

/-- References resolve alike in sets that have the same links of each document, and taxonomies with the
same elements under the same documents. -/
theorem resolve_congr {d e : Dts} (hd : d.Indexed) (hresources : d.resources = d.links.foldl indexResources ∅)
    (he : e.Consistent) (hlinks : Alike (·.document) d.links e.links)
    (htaxonomy : ∀ t ∈ d.taxonomies, ∃ u ∈ e.taxonomies,
      t.elements = u.elements ∧ t.ids = u.ids ∧ t.documents = u.documents)
    (hback : ∀ u ∈ e.taxonomies, ∃ t ∈ d.taxonomies, t.documents = u.documents) : d.resolve = e.resolve := by
  have helement (l id : String) :
      (d.taxonomyAt? l).bind (·.elementById? id) = (e.taxonomyAt? l).bind (·.elementById? id) := by
    cases ht : d.taxonomyAt? l with
    | none =>
      cases hu : e.taxonomyAt? l with
      | none => rfl
      | some u =>
        obtain ⟨hmem, hl⟩ := taxonomyAt?_eq_some he.toIndexed hu
        obtain ⟨t, htmem, hdocuments⟩ := hback u hmem
        obtain ⟨t', ht'⟩ := exists_taxonomyAt? hd htmem (hdocuments ▸ hl)
        rw [ht] at ht'
        cases ht'
    | some t =>
      obtain ⟨hmem, hl⟩ := taxonomyAt?_eq_some hd ht
      obtain ⟨u, humem, helements, hids, hdocuments⟩ := htaxonomy t hmem
      rw [he.taxonomyAt?_of_mem humem (hdocuments ▸ hl), Option.bind_some, Option.bind_some]
      unfold Taxonomy.elementById?
      rw [helements, hids]
  have hresource (l : String) : d.resources.get? l = e.resources.get? l := by
    rw [hresources, he.resources_eq, get?_foldl_indexResources rfl, hlinks l, ← get?_foldl_indexResources rfl]
  funext href
  unfold resolve
  refine congrArg href.fragment.bind (funext fun id => ?_)
  rw [helement, hresource]

end TaxonomySet.Dts
