import TaxonomySet.Proofs.Dts.Lookup
import TaxonomySet.Snapshot.Basic

namespace TaxonomySet

theorem getElem?_of_lookup_zipIdx {xs : List Nat} {i k : Nat} (h : xs.zipIdx.lookup i = some k) :
    xs[k]? = some i := by
  obtain ⟨_, _, heq, -⟩ := List.lookup_eq_some_iff.1 h
  have hmem : (i, k) ∈ xs.zipIdx := heq ▸ List.mem_append_right _ List.mem_cons_self
  exact List.mem_zipIdx_iff_getElem?.1 hmem

theorem not_mem_of_lookup_zipIdx {xs : List Nat} {i : Nat} (h : xs.zipIdx.lookup i = none) :
    i ∉ xs := by
  intro hmem
  obtain ⟨k, hk⟩ := List.mem_iff_getElem?.1 hmem
  have hne := List.lookup_eq_none_iff.1 h (i, k) (List.mem_zipIdx_iff_getElem?.2 hk)
  simp at hne

/-- An element with a new number passes the test, and is found under that number in the filtered list. -/
theorem exists_of_lookup_filter {α : Type} {xs : List α} {p : α → Bool} {i k : Nat}
    (h : ((xs.zipIdx.filter fun x => p x.1).map (·.2)).zipIdx.lookup i = some k) :
    ∃ a, xs[i]? = some a ∧ p a = true ∧ (xs.filter p)[k]? = some a := by
  have hfilter : xs.filter p = (xs.zipIdx.filter fun x => p x.1).map (·.1) := by
    have hmap := List.filter_map (f := fun x : α × Nat => x.1) (p := p) (l := xs.zipIdx)
    rw [List.zipIdx_map_fst] at hmap
    exact hmap
  have hk := getElem?_of_lookup_zipIdx h
  rw [List.getElem?_map, Option.map_eq_some_iff] at hk
  obtain ⟨⟨a, j⟩, hk, rfl⟩ := hk
  obtain ⟨hmem, hp⟩ := List.mem_filter.1 (List.mem_of_getElem? hk)
  refine ⟨a, List.mem_zipIdx_iff_getElem?.1 hmem, hp, ?_⟩
  rw [hfilter, List.getElem?_map, hk, Option.map_some]

/-- Elements that pass a test are found in the filtered list under the numbers that they have there. -/
theorem getElem?_filter_lookup {α : Type} (xs : List α) (p : α → Bool) (i : Nat) :
    ((((xs.zipIdx.filter fun x => p x.1).map (·.2)).zipIdx.lookup i).bind fun k => (xs.filter p)[k]?) =
      (xs[i]?).filter p := by
  cases hlookup : ((xs.zipIdx.filter fun x => p x.1).map (·.2)).zipIdx.lookup i with
  | none =>
    have hnot := not_mem_of_lookup_zipIdx hlookup
    rw [Option.bind_none, eq_comm, Option.filter_eq_none_iff]
    intro a ha hp
    exact hnot (List.mem_map.2 ⟨(a, i), List.mem_filter.2 ⟨List.mem_zipIdx_iff_getElem?.2 ha, hp⟩, rfl⟩)
  | some k =>
    obtain ⟨a, ha, hp, hk⟩ := exists_of_lookup_filter hlookup
    rw [Option.bind_some, hk, ha, Option.filter_some, if_pos hp]

/-- The links that a record refers to. -/
def Dts.denoted (d : Dts) (r : LinkbaseRecord) : List ExtendedLink := r.links.filterMap (d.links[·]?)

theorem Dts.linksOf_eq_flatMap (d : Dts) (t : Taxonomy) : d.linksOf t = t.linkbases.flatMap d.denoted :=
  List.filterMap_flatMap

namespace Snapshot

/-- A taxonomy whose links are counted from `offset`. -/
def shifted (offset : Nat) (t : Taxonomy) : Taxonomy :=
  { t with linkbases := t.linkbases.map fun r => { r with links := r.links.map (offset + ·) } }

/-- Taxonomies of new namespaces are put behind the ones there are. -/
theorem value_foldl_addTaxonomy (offset : Nat) {ts : List Taxonomy} (hdistinct : (ts.map (·.ns)).Nodup)
    {acc : Reported Dts} (h : acc.value.Indexed) (hnew : ∀ t ∈ ts, ∀ u ∈ acc.value.taxonomies, u.ns ≠ t.ns) :
    (ts.foldl (addTaxonomy offset) acc).value.Indexed ∧
      (ts.foldl (addTaxonomy offset) acc).value.taxonomies = acc.value.taxonomies ++ ts.map (shifted offset) ∧
      (ts.foldl (addTaxonomy offset) acc).value.registry = acc.value.registry ∧
      (ts.foldl (addTaxonomy offset) acc).value.links = acc.value.links ∧
      (ts.foldl (addTaxonomy offset) acc).value.resources = acc.value.resources := by
  induction ts generalizing acc with
  | nil => exact ⟨h, (List.append_nil _).symm, rfl, rfl, rfl⟩
  | cons t ts ih =>
    rw [List.map_cons, List.nodup_cons] at hdistinct
    have hns : acc.value.byNamespace.get? t.ns = none :=
      h.byNamespace_eq_none_iff.2 (hnew t List.mem_cons_self)
    have hadd : (addTaxonomy offset acc t).value = acc.value.addTaxonomy (shifted offset t) := by
      unfold addTaxonomy SortedMap.contains
      rw [hns]
      rfl
    have hindexed : (addTaxonomy offset acc t).value.Indexed := hadd ▸ h.addTaxonomy hns
    have htaxonomies : (addTaxonomy offset acc t).value.taxonomies =
        acc.value.taxonomies ++ [shifted offset t] := by
      rw [hadd]
      rfl
    have hrest : ∀ u ∈ ts, ∀ v ∈ (addTaxonomy offset acc t).value.taxonomies, v.ns ≠ u.ns := by
      intro u hu v hv heq
      rw [htaxonomies] at hv
      rcases List.mem_append.1 hv with hv | hv
      · exact hnew u (List.mem_cons_of_mem _ hu) v hv heq
      · rw [List.mem_singleton.1 hv] at heq
        exact hdistinct.1 (List.mem_map.2 ⟨u, hu, heq.symm⟩)
    obtain ⟨hindexed', htaxonomies', hregistry, hlinks, hresources⟩ := ih hdistinct.2 hindexed hrest
    rw [htaxonomies, List.append_assoc] at htaxonomies'
    rw [hadd] at hregistry hlinks hresources
    exact ⟨hindexed', htaxonomies', hregistry, hlinks, hresources⟩

/-- What a taxonomy set holds after taxonomies of new namespaces, links and declarations have been
put into it. -/
theorem value_populate {s : Snapshot} (hdistinct : (s.taxonomies.map (·.ns)).Nodup) {d : Dts} (h : d.Indexed)
    (hnew : ∀ t ∈ s.taxonomies, ∀ u ∈ d.taxonomies, u.ns ≠ t.ns) :
    (populate s d).value.Indexed ∧
      (populate s d).value.taxonomies = d.taxonomies ++ s.taxonomies.map (shifted d.links.length) ∧
      (populate s d).value.registry = (d.registry.addAll s.roleTypes s.arcroleTypes).value ∧
      (populate s d).value.links = d.links ++ s.links ∧
      (populate s d).value.resources = s.links.foldl Dts.indexResources d.resources := by
  have hlinked : ({ d with registry := (d.registry.addAll s.roleTypes s.arcroleTypes).value }.addLinks
      s.links).Indexed := ⟨h.byNamespace, h.byLocation, h.located⟩
  exact @value_foldl_addTaxonomy d.links.length _ hdistinct
    ⟨_, (d.registry.addAll s.roleTypes s.arcroleTypes).diagnostics⟩ hlinked hnew

theorem value_populate_capture {b : Dts} (h : b.Consistent) (created : String) :
    (populate (capture b created) {}).value.Indexed ∧
      (populate (capture b created) {}).value.taxonomies = b.taxonomies ∧
      (populate (capture b created) {}).value.registry = b.registry ∧
      (populate (capture b created) {}).value.links = b.links ∧
      (populate (capture b created) {}).value.resources = b.links.foldl Dts.indexResources ∅ := by
  obtain ⟨hindexed, htaxonomies, hregistry, hlinks, hresources⟩ :=
    @value_populate (capture b created) h.nodup_ns {} Dts.indexed_empty fun _ _ _ hu => by cases hu
  have hshifted : shifted 0 = id := by
    funext t
    unfold shifted
    simp
  have htaxonomies' : (populate (capture b created) {}).value.taxonomies = [] ++ b.taxonomies.map (shifted 0) :=
    htaxonomies
  rw [hshifted, List.map_id, List.nil_append] at htaxonomies'
  exact ⟨hindexed, htaxonomies', hregistry.trans (Registry.value_addAll_values h.keyed), hlinks, hresources⟩

/-- Whether a base has no links of the document of a link. -/
def lacksDocument (b : Dts) (l : ExtendedLink) : Bool := !(b.links.any fun k => k.document == l.document)

/-- Whether a base has no taxonomy of the namespace of a taxonomy. -/
def lacksNamespace (b : Dts) (t : Taxonomy) : Bool := !(b.taxonomies.any fun u => u.ns == t.ns)

/-- A taxonomy of an extended set, its links numbered as over the base. -/
def moved (b e : Dts) (t : Taxonomy) : Taxonomy :=
  shifted b.links.length (renumbered (renumber e (capture b "")) t)

/-- A record of such a taxonomy. Its links are numbered twice: first without the links of documents that the base has
links of, then from the number of links of the base on. -/
def movedRecord (b e : Dts) (r : LinkbaseRecord) : LinkbaseRecord :=
  { r with links := (r.links.filterMap fun i => (renumber e (capture b "")).lookup i).map (b.links.length + ·) }

theorem linkbases_moved (b e : Dts) (t : Taxonomy) : (moved b e t).linkbases = t.linkbases.map (movedRecord b e) :=
  List.map_map

/-- A taxonomy set that is made of a base `b` and what another set `e` adds to it. -/
structure Layered (b e r : Dts) : Prop where
  indexed : r.Indexed
  taxonomies : r.taxonomies = b.taxonomies ++ (e.taxonomies.filter (lacksNamespace b)).map (moved b e)
  links : r.links = b.links ++ e.links.filter (lacksDocument b)
  resources : r.resources = r.links.foldl Dts.indexResources ∅
  role : ∀ uri, r.registry.roles.get? uri =
    overlay RoleType.usedOn RoleType.merged (b.registry.roles.get? uri) (e.registry.roles.get? uri)
  arcrole : ∀ uri, r.registry.arcroles.get? uri =
    overlay ArcroleType.usedOn ArcroleType.merged (b.registry.arcroles.get? uri)
      (e.registry.arcroles.get? uri)

theorem hasRole_capture {b : Dts} (h : b.registry.Keyed) (created : String) (role : RoleType) :
    hasRole (capture b created) role = (b.registry.roles.get? role.uri).any (·.usedOn == role.usedOn) := by
  unfold hasRole
  exact congrArg (Option.any _) (SortedMap.find?_reverse_values h.role_uri role.uri)

theorem hasArcrole_capture {b : Dts} (h : b.registry.Keyed) (created : String) (arcrole : ArcroleType) :
    hasArcrole (capture b created) arcrole =
      (b.registry.arcroles.get? arcrole.uri).any (·.usedOn == arcrole.usedOn) := by
  unfold hasArcrole
  exact congrArg (Option.any _) (SortedMap.find?_reverse_values h.arcrole_uri arcrole.uri)

/-- Restoring an extension of a base over the base layers them. -/
theorem layered_populate {b e : Dts} (hb : b.Consistent) (he : e.Consistent) (created created' : String) :
    Layered b e (populate (captureExtension e (capture b created) created')
      (populate (capture b created) {}).value).value := by
  obtain ⟨hbindexed, hbtaxonomies, hbregistry, hblinks, hbresources⟩ := value_populate_capture hb created
  have hdistinct : ((captureExtension e (capture b created) created').taxonomies.map (·.ns)).Nodup := by
    change (((e.taxonomies.filter (lacksNamespace b)).map _).map _).Nodup
    rw [List.map_map]
    exact he.nodup_ns.sublist (List.filter_sublist.map Taxonomy.ns)
  have hnew : ∀ t ∈ (captureExtension e (capture b created) created').taxonomies,
      ∀ u ∈ (populate (capture b created) {}).value.taxonomies, u.ns ≠ t.ns := by
    intro t ht u hu heq
    rw [hbtaxonomies] at hu
    obtain ⟨v, hv, rfl⟩ := List.mem_map.1 ht
    have hlacks := (List.mem_filter.1 hv).2
    rw [Bool.not_eq_true', List.any_eq_false] at hlacks
    exact hlacks u hu (beq_iff_eq.2 heq)
  obtain ⟨hindexed, htaxonomies, hregistry, hlinks, hresources⟩ := value_populate hdistinct hbindexed hnew
  rw [hblinks] at htaxonomies hlinks
  rw [hbtaxonomies] at htaxonomies
  rw [hbresources] at hresources
  rw [hbregistry] at hregistry
  refine ⟨hindexed, ?_, hlinks, ?_, fun uri => ?_, fun uri => ?_⟩
  · rw [htaxonomies]
    change _ ++ ((e.taxonomies.filter (lacksNamespace b)).map _).map _ = _
    rw [List.map_map]
    rfl
  · rw [hresources, hlinks, List.foldl_append]
  · have hnodup : ((e.registry.roles.values.filter fun r => !hasRole (capture b created) r).map
        (·.uri)).Nodup :=
      (SortedMap.nodup_map_values he.keyed.role_uri).sublist (List.filter_sublist.map _)
    rw [hregistry]
    refine (Registry.get?_roles_addAll _ _ hnodup uri).trans ?_
    rw [SortedMap.find?_filter_values he.keyed.role_uri]
    cases hget : e.registry.roles.get? uri with
    | none => rfl
    | some r =>
      unfold overlay
      rw [Option.filter_some, Option.filter_some, hasRole_capture hb.keyed, he.keyed.role_uri hget]
  · have hnodup : ((e.registry.arcroles.values.filter fun a => !hasArcrole (capture b created) a).map
        (·.uri)).Nodup :=
      (SortedMap.nodup_map_values he.keyed.arcrole_uri).sublist (List.filter_sublist.map _)
    rw [hregistry]
    refine (Registry.get?_arcroles_addAll _ _ hnodup uri).trans ?_
    rw [SortedMap.find?_filter_values he.keyed.arcrole_uri]
    cases hget : e.registry.arcroles.get? uri with
    | none => rfl
    | some a =>
      unfold overlay
      rw [Option.filter_some, Option.filter_some, hasArcrole_capture hb.keyed, he.keyed.arcrole_uri hget]

theorem Layered.withMain {b e r : Dts} (h : Layered b e r) (main : Option String) :
    Layered b e { r with mainNamespace := main } :=
  ⟨⟨h.indexed.byNamespace, h.indexed.byLocation, h.indexed.located⟩, h.taxonomies, h.links, h.resources,
    h.role, h.arcrole⟩

/-- An extension can be restored over its base. -/
theorem restoreExtension_capture {b e : Dts} (hb : b.Consistent) (he : e.Consistent) (created created' : String)
    (journal : Journal) :
    ∃ r, restoreExtension (capture b created) (captureExtension e (capture b created) created') journal = .ok r ∧
      Layered b e r.dts ∧ r.index = r.dts.index.value := by
  refine ⟨_, if_neg (not_not_intro rfl), ?_, rfl⟩
  exact (layered_populate hb he created created').withMain e.mainNamespace

theorem Layered.denoted_base {b e r : Dts} (h : Layered b e r) (hb : b.Consistent) {t : Taxonomy}
    (ht : t ∈ b.taxonomies) {record : LinkbaseRecord} (hrecord : record ∈ t.linkbases) :
    r.denoted record = b.denoted record := by
  refine List.filterMap_congr fun i hi => ?_
  rw [h.links, List.getElem?_append_left (hb.numbered t ht record hrecord i hi)]

/-- A record of an added taxonomy refers to the links of added documents only. -/
theorem Layered.denoted_moved {b e r : Dts} (h : Layered b e r) (record : LinkbaseRecord) :
    r.denoted (movedRecord b e record) = (e.denoted record).filter (lacksDocument b) := by
  unfold Dts.denoted movedRecord
  rw [List.filterMap_map, List.filterMap_filterMap, List.filter_filterMap]
  refine List.filterMap_congr fun i _ => ?_
  rw [← getElem?_filter_lookup e.links (lacksDocument b) i]
  refine congrArg (Option.bind _) (funext fun k => ?_)
  rw [Function.comp_apply, h.links, List.getElem?_append_right (Nat.le_add_right _ _), Nat.add_sub_cancel_left]

theorem Layered.linksOf_base {b e r : Dts} (h : Layered b e r) (hb : b.Consistent) {t : Taxonomy}
    (ht : t ∈ b.taxonomies) : r.linksOf t = b.linksOf t := by
  rw [Dts.linksOf_eq_flatMap, Dts.linksOf_eq_flatMap]
  exact List.flatMap_congr fun _ hrecord => h.denoted_base hb ht hrecord

theorem Layered.linksOf_moved {b e r : Dts} (h : Layered b e r) (t : Taxonomy) :
    r.linksOf (moved b e t) = (e.linksOf t).filter (lacksDocument b) := by
  rw [Dts.linksOf_eq_flatMap, Dts.linksOf_eq_flatMap, linkbases_moved, List.flatMap_map, List.filter_flatMap]
  exact List.flatMap_congr fun record _ => h.denoted_moved record

end Snapshot

end TaxonomySet
