import TaxonomySet.Proofs.Link.Override
import TaxonomySet.Proofs.Sorted
import TaxonomySet.Relationship.Network

namespace TaxonomySet

/-- The relationship without the number of its link. -/
def Relationship.unlinked (r : Relationship) : Relationship := { r with link := 0 }

theorem Endpoint.concept?_beq_some (e : Endpoint) (name : QName) :
    (e.concept? == some name) = (e == .concept name) := by
  rw [Bool.eq_iff_iff, beq_iff_eq, beq_iff_eq]
  cases e <;> simp [concept?]

namespace BaseSet

/-- The candidates of a base set by what identifies them. -/
def groupsOf (rs : List Relationship) : SortedMap EquivalenceKey (List Relationship) :=
  rs.foldl (fun m r => m.push r.key r) ∅

/-- The relationships that prevail among candidates. -/
def prevailing (rs : List Relationship) : List Relationship :=
  ((groupsOf rs).values.flatMap selectEffective).mergeSort fun a b => (Relationship.order a b).isLE

theorem prevailing_nil : prevailing [] = [] := List.mergeSort_nil

theorem get?_groupsOf (rs : List Relationship) (k : EquivalenceKey) :
    (groupsOf rs).get? k =
      if (rs.filter fun r => r.key == k) = [] then none else some (rs.filter fun r => r.key == k) := by
  have hget := SortedMap.get?_foldl_push Relationship.key (fun r => r) rs ∅ k
  rw [List.map_id'] at hget
  exact hget

/-- The relationships that prevail do not depend on the order of the documents. -/
theorem prevailing_congr {rs ss : List Relationship} (h : Alike (·.document) rs ss) :
    prevailing rs = prevailing ss := by
  refine Order.mergeSort_congr fun x => ?_
  -- relationships that are sorted alike are of one document
  have hdocument (r : Relationship) (hr : (Relationship.order x r == .eq) = true) : r.document = x.document := by
    have hr : ((compare x.source.key r.source.key).then ((compare x.arc.order r.arc.order).then
        ((compare x.target.key r.target.key).then (compare x.document r.document)))) = .eq :=
      beq_iff_eq.1 hr
    simp only [Ordering.then_eq_eq, Std.compare_eq_iff_eq] at hr
    exact hr.2.2.2.symm
  have hgroups : (groupsOf rs).mapValues (fun g => (selectEffective g).filter (Relationship.order x · == .eq)) =
      (groupsOf ss).mapValues fun g => (selectEffective g).filter (Relationship.order x · == .eq) := by
    refine SortedMap.ext_get? fun k => ?_
    have hk := h.filter fun r => r.key == k
    have hnil : (rs.filter fun r => r.key == k) = [] ↔ (ss.filter fun r => r.key == k) = [] := by
      rw [← List.length_eq_zero_iff, hk.perm.length_eq, List.length_eq_zero_iff]
    rw [SortedMap.get?_mapValues, SortedMap.get?_mapValues, get?_groupsOf, get?_groupsOf]
    by_cases hss : (ss.filter fun r => r.key == k) = []
    · rw [if_pos (hnil.2 hss), if_pos hss]
    · rw [if_neg fun hrs => hss (hnil.1 hrs), if_neg hss, Option.map_some, Option.map_some,
        hk.selectEffective.filter_eq hdocument]
  have hvalues := congrArg SortedMap.values hgroups
  rw [SortedMap.values_mapValues, SortedMap.values_mapValues] at hvalues
  rw [List.filter_flatMap, List.filter_flatMap, List.flatMap_def, List.flatMap_def, hvalues]

/-- The numbers of the links do not matter for what prevails. -/
theorem prevailing_map_unlinked (rs : List Relationship) :
    prevailing (rs.map .unlinked) = (prevailing rs).map .unlinked := by
  have hgroups : groupsOf (rs.map .unlinked) = (groupsOf rs).mapValues (List.map .unlinked) := by
    refine SortedMap.ext_get? fun k => ?_
    rw [SortedMap.get?_mapValues, get?_groupsOf, get?_groupsOf, List.filter_map]
    have hfilter : ((fun r : Relationship => r.key == k) ∘ .unlinked) = fun r => r.key == k := rfl
    rw [hfilter]
    simp only [List.map_eq_nil_iff]
    split <;> rfl
  have hselect (g : List Relationship) : selectEffective (g.map Relationship.unlinked) =
      (selectEffective g).map Relationship.unlinked :=
    @selectEffective_map _ _ _ _ Relationship.unlinked (fun _ => rfl) (fun _ => rfl) g
  unfold prevailing
  rw [hgroups, SortedMap.values_mapValues, List.flatMap_map]
  simp only [hselect]
  rw [← List.map_flatMap]
  have horder (a b : Relationship) : (Relationship.order a b).isLE =
      (Relationship.order a.unlinked b.unlinked).isLE := rfl
  exact (List.map_mergeSort fun a _ b _ => horder a b).symm

end BaseSet

namespace Network

/-- The candidates of a base set. -/
def candidatesOf (resolve : Resolver) (links : List ExtendedLink) (key : BaseSetKey) : List Relationship :=
  ((candidates resolve links).filter (·.1 == key)).map (·.2)

theorem get?_group (cs : List (BaseSetKey × Relationship)) (key : BaseSetKey) :
    (group cs).get? key =
      if ((cs.filter (·.1 == key)).map (·.2)) = [] then none
      else some (BaseSet.groupsOf ((cs.filter (·.1 == key)).map (·.2))) := by
  have hget := SortedMap.get?_foldl_alter_getD Prod.fst (fun _ => ∅)
    (fun (groups : SortedMap EquivalenceKey (List Relationship)) (c : BaseSetKey × Relationship) =>
      groups.push c.2.key c.2) cs ∅ key
  simp only [List.map_eq_nil_iff, BaseSet.groupsOf, List.foldl_map]
  exact hget

theorem relationships_ofLinks (resolve : Resolver) (links : List ExtendedLink) (key : BaseSetKey) :
    (ofLinks resolve links).value.relationships key =
      BaseSet.prevailing (candidatesOf resolve links key) := by
  unfold relationships ofLinks
  rw [SortedMap.get?_filter, SortedMap.get?_mapValues, get?_group]
  unfold candidatesOf
  split
  · rename_i hnil
    rw [hnil, BaseSet.prevailing_nil]
    rfl
  · have hset (gs : SortedMap EquivalenceKey (List Relationship)) :
        (((some (BaseSet.ofGroups gs)).filter fun set => !set.relationships.isEmpty).map
          (·.relationships.toList)).getD [] = (BaseSet.ofGroups gs).relationships.toList := by
      cases hempty : (BaseSet.ofGroups gs).relationships.isEmpty with
      | true => simp [Option.filter_some, Array.isEmpty_iff.1 hempty]
      | false => simp [Option.filter_some, hempty]
    rw [Option.map_some]
    exact hset _

theorem relationships_eq_nil (resolve : Resolver) {links : List ExtendedLink} {key : BaseSetKey}
    (h : ∀ l ∈ links, l.role ≠ key.role) : (ofLinks resolve links).value.relationships key = [] := by
  have hnone : ((candidates resolve links).filter (·.1 == key)) = [] := by
    refine List.filter_eq_nil_iff.2 fun c hc hkey => ?_
    obtain ⟨⟨l, i⟩, hl, hc⟩ := List.mem_flatMap.1 hc
    obtain ⟨arc, -, hc⟩ := List.mem_flatMap.1 hc
    simp only [List.mem_flatMap, List.mem_map] at hc
    obtain ⟨source, -, target, -, rfl⟩ := hc
    exact h l (List.mem_of_getElem? (List.mem_zipIdx_iff_getElem?.1 hl)) (congrArg BaseSetKey.role (beq_iff_eq.1 hkey))
  rw [relationships_ofLinks, candidatesOf, hnone, List.map_nil, BaseSet.prevailing_nil]

theorem exists_ofGroups {resolve : Resolver} {links : List ExtendedLink} {key : BaseSetKey} {set : BaseSet}
    (h : (ofLinks resolve links).value.sets.get? key = some set) : ∃ groups, set = BaseSet.ofGroups groups := by
  change (((group (candidates resolve links)).mapValues BaseSet.ofGroups).filter _).get? key = some set at h
  rw [SortedMap.get?_filter, Option.filter_eq_some_iff, SortedMap.get?_mapValues, Option.map_eq_some_iff] at h
  obtain ⟨⟨groups, -, rfl⟩, -⟩ := h
  exact ⟨groups, rfl⟩

/-- The index of the sources of a base set finds the relationships from a concept, in their order. -/
theorem childrenOf_ofLinks (resolve : Resolver) (links : List ExtendedLink) (key : BaseSetKey) (concept : QName) :
    (ofLinks resolve links).value.childrenOf key concept =
      ((ofLinks resolve links).value.relationships key).filter (·.source == .concept concept) := by
  unfold childrenOf relationships
  cases hset : (ofLinks resolve links).value.sets.get? key with
  | none => rfl
  | some set =>
    obtain ⟨groups, rfl⟩ := exists_ofGroups hset
    refine (Positions.select_ofArray _ _ concept).trans (List.filter_congr fun r _ => ?_)
    exact r.source.concept?_beq_some concept

theorem parentsOf_ofLinks (resolve : Resolver) (links : List ExtendedLink) (key : BaseSetKey) (concept : QName) :
    (ofLinks resolve links).value.parentsOf key concept =
      ((ofLinks resolve links).value.relationships key).filter (·.target == .concept concept) := by
  unfold parentsOf relationships
  cases hset : (ofLinks resolve links).value.sets.get? key with
  | none => rfl
  | some set =>
    obtain ⟨groups, rfl⟩ := exists_ofGroups hset
    refine (Positions.select_ofArray _ _ concept).trans (List.filter_congr fun r _ => ?_)
    exact r.target.concept?_beq_some concept

theorem candidatesOf_map_unlinked (resolve : Resolver) (links : List ExtendedLink) (key : BaseSetKey) :
    (candidatesOf resolve links key).map .unlinked =
      links.flatMap fun l => ((l.candidates resolve 0).filter (·.1 == key)).map (·.2) := by
  have hlink (l : ExtendedLink) (i : Nat) : l.candidates resolve 0 =
      (l.candidates resolve i).map fun c => (c.1, c.2.unlinked) := by
    unfold ExtendedLink.candidates
    simp only [List.map_flatMap, List.map_map]
    rfl
  unfold candidatesOf candidates
  rw [List.filter_flatMap, List.map_flatMap, List.map_flatMap]
  rw [← List.zipIdx_map_fst 0 links, List.flatMap_map, List.zipIdx_map_fst]
  refine List.flatMap_congr fun l _ => ?_
  rw [hlink l.1 l.2, List.filter_map, List.map_map, List.map_map]
  rfl

/-- The relationships of a base set but for the numbers of their links. -/
theorem relationships_congr (resolve : Resolver) {links others : List ExtendedLink}
    (h : Alike (·.document) links others) (key : BaseSetKey) :
    ((ofLinks resolve links).value.relationships key).map Relationship.unlinked =
      ((ofLinks resolve others).value.relationships key).map Relationship.unlinked := by
  rw [relationships_ofLinks, relationships_ofLinks, ← BaseSet.prevailing_map_unlinked,
    ← BaseSet.prevailing_map_unlinked, candidatesOf_map_unlinked, candidatesOf_map_unlinked]
  refine BaseSet.prevailing_congr (h.flatMap fun l r hr => ?_)
  obtain ⟨c, hc, rfl⟩ := List.mem_map.1 hr
  have hmem := List.mem_of_mem_filter hc
  unfold ExtendedLink.candidates at hmem
  simp only [List.mem_flatMap, List.mem_map] at hmem
  obtain ⟨arc, -, source, -, target, -, rfl⟩ := hmem
  rfl

end Network

end TaxonomySet
