import TaxonomySet.Proofs.Dimension.Agreement
import TaxonomySet.Proofs.Dimension.Categories
import TaxonomySet.Proofs.Dimension.Pruning
import TaxonomySet.Proofs.Sample

namespace TaxonomySet.Dimension

open Overridable

/-- One edge comes before another in a table: as its edges are in order, or where this leaves it open, in the order
of the keys. -/
def Edge.Precedes (e f : Edge) : Prop :=
  Edge.sequence e f = .lt ∨ Edge.sequence e f = .eq ∧ compare e.key f.key = .lt

/-- Edges of one key go between the same ends in the same way. -/
theorem Edge.ends_of_key_eq {e f : Edge} (h : e.key = f.key) :
    e.arcrole = f.arcrole ∧ e.source = f.source ∧ e.target = f.target :=
  ⟨Arcrole.uri_injective (congrArg EquivalenceKey.arcrole h),
    EndKey.concept.inj (congrArg EquivalenceKey.source h), EndKey.concept.inj (congrArg EquivalenceKey.target h)⟩

namespace View

/-- Views that put the nodes into the same categories. -/
structure SameCategories (v w : View) : Prop where
  primaryItems : v.primaryItems = w.primaryItems
  hypercubes : v.hypercubes = w.hypercubes
  dimensions : v.dimensions = w.dimensions
  members : v.members = w.members

theorem SameCategories.conflicts_eq {v w : View} (h : v.SameCategories w) : v.conflicts = w.conflicts := by
  have hcategories : v.categories = w.categories := by
    funext n
    unfold categories
    rw [h.primaryItems, h.hypercubes, h.dimensions, h.members]
  unfold conflicts nodes
  rw [hcategories, h.primaryItems, h.hypercubes, h.dimensions, h.members]

end View

namespace Table

section

variable {t u : Table} (ht : t.Current) (hu : u.Current) (hkeys : ∀ k, k ∈ t.keys ↔ k ∈ u.keys) (n : QName)
include ht hu hkeys

/-- Tables that show the same keys agree on what edges there are between given ends. -/
theorem exists_effective_congr (p : Arcrole → QName → QName → Prop) :
    (∃ e ∈ t.effective, p e.arcrole e.source e.target) ↔ ∃ e ∈ u.effective, p e.arcrole e.source e.target := by
  have hshows {v w : Table} (hv : v.Current) (hw : w.Current) (hsub : v.keys ⊆ w.keys) :
      (∃ e ∈ v.effective, p e.arcrole e.source e.target) → ∃ e ∈ w.effective, p e.arcrole e.source e.target := by
    rintro ⟨e, he, hp⟩
    unfold keys at hsub
    rw [hv.all_eq, hw.all_eq] at hsub
    obtain ⟨f, hf, hkey⟩ := List.mem_map.1 (hsub (List.mem_map_of_mem he))
    obtain ⟨harcrole, hsource, htarget⟩ := Edge.ends_of_key_eq hkey
    exact ⟨f, hf, by rwa [harcrole, hsource, htarget]⟩
  exact ⟨hshows ht hu fun k hk => (hkeys k).1 hk, hshows hu ht fun k hk => (hkeys k).2 hk⟩

theorem above_congr : t.Above = u.Above := by
  funext a b
  exact propext (exists_effective_congr ht hu hkeys fun arcrole source target =>
    target = a ∧ arcrole = .domainMember ∧ source = b)

theorem isPrimaryItem_congr : t.IsPrimaryItem n ↔ u.IsPrimaryItem n := by
  unfold IsPrimaryItem
  rw [above_congr ht hu hkeys]
  exact exists_effective_congr ht hu hkeys fun arcrole source _ =>
    arcrole.isHasHypercube = true ∧ Relation.ReflTransGen u.Above n source

theorem isHypercube_congr : t.IsHypercube n ↔ u.IsHypercube n :=
  exists_effective_congr ht hu hkeys fun arcrole source target =>
    arcrole.isHasHypercube = true ∧ target = n ∨ arcrole = .hypercubeDimension ∧ source = n

theorem isDimension_congr : t.IsDimension n ↔ u.IsDimension n :=
  exists_effective_congr ht hu hkeys fun arcrole source target =>
    arcrole = .hypercubeDimension ∧ target = n ∨
      (arcrole = .dimensionDomain ∨ arcrole = .dimensionDefault) ∧ source = n

theorem isBelowDimension_congr : t.IsBelowDimension n ↔ u.IsBelowDimension n := by
  unfold IsBelowDimension
  rw [above_congr ht hu hkeys]
  exact exists_effective_congr ht hu hkeys fun arcrole _ target =>
    (arcrole = .dimensionDomain ∨ arcrole = .dimensionDefault) ∧ Relation.ReflTransGen u.Above n target

theorem isMemberEnd_congr : t.IsMemberEnd n ↔ u.IsMemberEnd n :=
  exists_effective_congr ht hu hkeys fun arcrole source target =>
    arcrole = .domainMember ∧ (source = n ∨ target = n)

/-- The categories of the nodes depend on the keys of the edges only. -/
theorem sameCategories_of_keys : t.view.SameCategories u.view where
  primaryItems := SortedSet.ext_mem fun n => by
    rw [ht.mem_primaryItems, hu.mem_primaryItems, isPrimaryItem_congr ht hu hkeys]
  hypercubes := SortedSet.ext_mem fun n => by
    rw [ht.mem_hypercubes, hu.mem_hypercubes, isHypercube_congr ht hu hkeys]
  dimensions := SortedSet.ext_mem fun n => by
    rw [ht.mem_dimensions, hu.mem_dimensions, isDimension_congr ht hu hkeys]
  members := SortedSet.ext_mem fun n => by
    rw [ht.mem_members, hu.mem_members, isBelowDimension_congr ht hu hkeys, isMemberEnd_congr ht hu hkeys,
      isPrimaryItem_congr ht hu hkeys]

end

/-- The edges of a table come in order. -/
theorem Grouped.pairwise_effective {t : Table} (h : t.Grouped) : t.effective.Pairwise Edge.Precedes :=
  Order.pairwise_mergeSort_of_pairwise h.pairwise_candidates

/-- Of each key a table shows what is selected first among all candidates of the key. -/
theorem Gathers.filter_key_effective {t : Table} {es : List Edge} (h : t.Gathers es) (k : EquivalenceKey) :
    (t.effective.filter fun e => e.key == k) =
      (selectEffective (es.filter fun e => e.key == k)).head?.toList := by
  have hmem (e : Edge) : (e ∈ t.effective.filter fun e => e.key == k) ↔
      (selectEffective (es.filter fun e => e.key == k)).head? = some e := by
    rw [List.mem_filter, beq_iff_eq, h.mem_effective]
    constructor
    · rintro ⟨he, rfl⟩
      exact he
    · intro he
      have hkey := (Gathers.mem_selectEffective.1 (List.mem_of_head? he)).2.1
      exact ⟨hkey ▸ he, hkey⟩
  have hnodup : (t.effective.filter fun e => e.key == k).Nodup := (nodup_effective h.grouped).filter _
  cases hhead : (selectEffective (es.filter fun e => e.key == k)).head? with
  | none => exact List.eq_nil_iff_forall_not_mem.2 fun e he => by cases hhead.symm.trans ((hmem e).1 he)
  | some first =>
    refine List.perm_singleton.1 ((List.perm_ext_iff_of_nodup hnodup (List.nodup_singleton _)).2 fun e => ?_)
    rw [hmem, hhead, Option.some_inj, List.mem_singleton, eq_comm]

/-- A table that edges are inserted into one by one shows of each key the first of those that a selection among all
edges of the key yields, if it yields any, and nothing else. What it shows is in order, and of edges that the order
leaves open the one with the smaller key comes first. -/
theorem selectEffective_ofEdges (role : String) (es : List Edge) :
    let shown := (ofEdges role es).view.edges.all.toList
    (∀ k, (shown.filter fun e => e.key == k) = (selectEffective (es.filter fun e => e.key == k)).head?.toList) ∧
      shown.Pairwise Edge.Precedes := by
  intro shown
  have h := gathers_ofEdges role es
  have hshown : shown = (ofEdges role es).effective := h.current.all_eq
  rw [hshown]
  exact ⟨h.filter_key_effective, h.grouped.pairwise_effective⟩

end Table

/-- Links in another order make tables for the same roles. A table shows the same keys, and the categories of the
nodes and the conflicts are the same. -/
theorem categories_collect_perm (resolve : Resolver) {links others : List ExtendedLink} (h : links.Perm others) :
    (collect resolve links).keys = (collect resolve others).keys ∧
      ∀ {role : String} {t u : Table}, (collect resolve links).get? role = some t →
        (collect resolve others).get? role = some u →
        (∀ k, k ∈ t.keys ↔ k ∈ u.keys) ∧ t.view.SameCategories u.view ∧ t.view.conflicts = u.view.conflicts := by
  constructor
  · refine SortedMap.keys_congr fun role => ?_
    have hrole := collect_perm resolve h role
    generalize (collect resolve links).get? role = t, (collect resolve others).get? role = u at hrole
    cases hrole <;> rfl
  · intro role t u ht hu
    have hrole := collect_perm resolve h role
    rw [ht, hu, Option.rel_some_some] at hrole
    have hkeys (k : EquivalenceKey) : k ∈ t.keys ↔ k ∈ u.keys := by
      have hperm := hrole.shown.map Prod.fst
      rw [List.map_map, List.map_map] at hperm
      exact hperm.mem_iff
    have hsame := Table.sameCategories_of_keys (of_get?_collect ht).2.2 (of_get?_collect hu).2.2 hkeys
    exact ⟨hkeys, hsame, hsame.conflicts_eq⟩

/-- The second of two links takes back an arc of the first, and makes a dimension of its primary item. -/
def rivals : List ExtendedLink := [
  Sample.link "r" [Sample.arc .all "p" "h" none, Sample.arc .domainMember "p" "q" none],
  Sample.link "r" [{ Sample.arc .domainMember "p" "q" none with use := .prohibited },
    Sample.arc .hypercubeDimension "h" "p" none]]

/-- References to the concepts of the links. -/
def rivalResolver : Resolver :=
  (Sample.session [Sample.item "p", Sample.item "q", Sample.hypercube "h"] []).dts.resolve

/-- The table of some links. -/
def rivalTable (links : List ExtendedLink) : Table := ((collect rivalResolver links).get? "r").getD { role := "r" }

set_option maxRecDepth 20000 in
theorem conflicts_rivals :
    (rivalTable rivals).view.conflicts = [⟨Sample.name "p", [.primaryItem, .dimension]⟩] := by
  unfold rivalTable rivalResolver rivals
  cbv

theorem categories_collect_rivals :
    rivals.Perm rivals.reverse ∧
      (collect rivalResolver rivals).get? "r" = some (rivalTable rivals) ∧
      (collect rivalResolver rivals.reverse).get? "r" = some (rivalTable rivals.reverse) ∧
      (∀ k, k ∈ (rivalTable rivals).keys ↔ k ∈ (rivalTable rivals.reverse).keys) ∧
      (rivalTable rivals.reverse).view.conflicts = [⟨Sample.name "p", [.primaryItem, .dimension]⟩] := by
  have hperm : rivals.Perm rivals.reverse := (List.reverse_perm _).symm
  have ht : (collect rivalResolver rivals).get? "r" = some (rivalTable rivals) :=
    (Option.getD_of_ne_none (by decide +kernel) _).symm
  have hu : (collect rivalResolver rivals.reverse).get? "r" = some (rivalTable rivals.reverse) :=
    (Option.getD_of_ne_none (by decide +kernel) _).symm
  obtain ⟨hkeys, -, hconflicts⟩ := (categories_collect_perm rivalResolver hperm).2 ht hu
  exact ⟨hperm, ht, hu, hkeys, hconflicts ▸ conflicts_rivals⟩

end TaxonomySet.Dimension
