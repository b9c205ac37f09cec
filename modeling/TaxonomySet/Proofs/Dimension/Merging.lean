import TaxonomySet.Proofs.Dimension.Candidates

namespace TaxonomySet.Dimension

open Overridable

/-- Whether an edge counts among others: none with its key has a higher priority, and none with its key and
priority is a prohibition. -/
def Edge.Prevails (e : Edge) (es : List Edge) : Prop :=
  ∀ f ∈ es, f.key = e.key → f.priority.toInt ≤ e.priority.toInt ∧
    (f.priority.toInt = e.priority.toInt → f.isProhibited = false)

theorem Edge.prevails_congr {xs ys : List Edge} (h : ∀ e, e ∈ xs ↔ e ∈ ys) {e : Edge} :
    e.Prevails xs ↔ e.Prevails ys :=
  forall_congr' fun f => imp_congr_left (h f)

namespace Table

/-- A table with the candidates of a list of edges, up to date. Of each group it has those that may
still count. -/
structure Gathers (t : Table) (es : List Edge) : Prop where
  groups : ∀ k, t.groups.get? k =
    if (es.filter fun e => e.key == k) = [] then none else some (strongest (es.filter fun e => e.key == k))
  current : t.Current
  vetoed : ∀ e ∈ t.effective, e.vetoes = true → e.target ∈ t.unusable

/-- The keys of the edges that a table shows. -/
def keys (t : Table) : List EquivalenceKey := t.view.edges.all.toList.map (·.key)

/-- Merges tables one after the other into the first. -/
def mergeAll : List Table → Option Table
  | [] => none
  | t :: ts => some (ts.foldl merge t)

theorem mem_unusable_rebuild {t : Table} {m : QName} :
    m ∈ t.rebuild.unusable ↔ (∃ e ∈ t.effective, e.vetoes = true ∧ e.target = m) ∨ m ∈ t.unusable := by
  refine SortedSet.mem_insertAll.trans (or_congr_left ?_)
  simp only [List.mem_map, List.mem_filter, and_assoc]

theorem gathers_ofEdges (role : String) (es : List Edge) : (ofEdges role es).Gathers es where
  groups := get?_ofEdges_groups role es
  current := current_rebuild _
  vetoed e he hvetoes := mem_unusable_rebuild.2 (.inl ⟨e, he, hvetoes, rfl⟩)

theorem gathers_of_get?_collect {resolve : Resolver} {links : List ExtendedLink} {role : String} {t : Table}
    (h : (collect resolve links).get? role = some t) : t.Gathers (arisingEdges resolve links role) := by
  rw [get?_collect_eq_some h]
  exact gathers_ofEdges role _

namespace Gathers

variable {t u : Table} {xs ys : List Edge}

theorem key_eq (h : t.Gathers xs) {k : EquivalenceKey} {group : List Edge} (hget : t.groups.get? k = some group) :
    ∀ e ∈ group, e.key = k := by
  intro e he
  rw [h.groups] at hget
  split at hget
  · cases hget
  · cases hget
    exact beq_iff_eq.1 (List.mem_filter.1 (mem_strongest.1 he).1).2

theorem mem_effective (h : t.Gathers xs) {e : Edge} :
    e ∈ t.effective ↔ (selectEffective (xs.filter fun f => f.key == e.key)).head? = some e := by
  rw [Table.mem_effective]
  constructor
  · rintro ⟨k, group, hget, he⟩
    have hk := h.key_eq hget e (mem_of_head?_selectEffective he)
    subst hk
    rw [h.groups] at hget
    split at hget
    · cases hget
    · cases hget
      rwa [selectEffective_strongest] at he
  · intro he
    refine ⟨e.key, strongest (xs.filter fun f => f.key == e.key), ?_, by rwa [selectEffective_strongest]⟩
    rw [h.groups, if_neg]
    intro hnil
    rw [hnil] at he
    cases he

theorem mem_selectEffective {e : Edge} {k : EquivalenceKey} :
    e ∈ selectEffective (xs.filter fun f => f.key == k) ↔ e ∈ xs ∧ e.key = k ∧ e.Prevails xs := by
  rw [selectEffective_eq_filter, List.mem_filter, List.mem_filter, beq_iff_eq, decide_eq_true_iff, and_assoc]
  refine and_congr_right fun _ => and_congr_right fun hk => ?_
  subst hk
  unfold Edge.Prevails
  simp only [List.mem_filter, beq_iff_eq, and_imp]
  rfl

/-- A table shows the keys of the candidates that prevail. -/
theorem mem_keys (h : t.Gathers xs) {k : EquivalenceKey} :
    k ∈ t.keys ↔ ∃ e ∈ xs, e.key = k ∧ e.Prevails xs := by
  unfold keys
  rw [h.current.all_eq, List.mem_map]
  constructor
  · rintro ⟨e, he, rfl⟩
    have hcounts := List.mem_of_head? (h.mem_effective.1 he)
    obtain ⟨hmem, -, hprevails⟩ := mem_selectEffective.1 hcounts
    exact ⟨e, hmem, rfl, hprevails⟩
  · rintro ⟨e, he, rfl, hprevails⟩
    have hcounts : e ∈ selectEffective (xs.filter fun f => f.key == e.key) :=
      mem_selectEffective.2 ⟨he, rfl, hprevails⟩
    obtain ⟨first, rest, hfirst⟩ := List.exists_cons_of_ne_nil (List.ne_nil_of_mem hcounts)
    have hkey : first.key = e.key := (mem_selectEffective.1 (hfirst ▸ List.mem_cons_self)).2.1
    refine ⟨first, h.mem_effective.2 ?_, hkey⟩
    rw [hkey, hfirst, List.head?_cons]

/-- Which keys a table shows does not depend on how often its candidates occur, nor on their order. -/
theorem mem_keys_congr (ht : t.Gathers xs) (hu : u.Gathers ys) (h : ∀ e, e ∈ xs ↔ e ∈ ys) {k : EquivalenceKey} :
    k ∈ t.keys ↔ k ∈ u.keys := by
  rw [ht.mem_keys, hu.mem_keys]
  exact exists_congr fun e => and_congr (h e) (and_congr_right fun _ => Edge.prevails_congr h)

/-- Tables with the same candidates show the same. -/
theorem view_eq (ht : t.Gathers xs) (hu : u.Gathers xs) : t.view = u.view := by
  have heffective : t.effective = u.effective := effective_congr fun k => by rw [ht.groups, hu.groups]
  rw [ht.current, hu.current, heffective]

theorem groups_merge (ht : t.Gathers xs) (hu : u.Gathers ys) (k : EquivalenceKey) :
    (t.merge u).groups.get? k =
      if ((xs ++ ys).filter fun e => e.key == k) = [] then none
      else some (strongest ((xs ++ ys).filter fun e => e.key == k)) := by
  have hothers : (u.groups.get? k).getD [] = strongest (ys.filter fun e => e.key == k) := by
    rw [hu.groups]
    split
    · rename_i hnil
      rw [hnil]
      rfl
    · rfl
  have hnil (es : List Edge) : strongest es = [] ↔ es = [] :=
    ⟨fun h => by_contra fun hne => strongest_ne_nil hne h, fun h => by rw [h]; rfl⟩
  change (t.insertAll u.groups.values.flatten).groups.get? k = _
  rw [get?_insertAll_groups, SortedMap.filter_flatten_values Edge.key hu.key_eq, hothers, ht.groups,
    ← foldl_enter, ← List.foldl_append, foldl_enter, strongest_append_strongest, List.filter_append]
  simp only [List.append_eq_nil_iff, hnil]

/-- What counts after a merge has counted in one of the tables. -/
theorem mem_effective_merge (ht : t.Gathers xs) (hu : u.Gathers ys) {e : Edge} (he : e ∈ (t.merge u).effective) :
    e ∈ t.effective ∨ e ∈ u.effective := by
  obtain ⟨k, group, hget, hhead⟩ := Table.mem_effective.1 he
  rw [ht.groups_merge hu] at hget
  split at hget
  · cases hget
  · cases hget
    have hmem := (mem_strongest.1 (mem_of_head?_selectEffective hhead)).1
    have hk : e.key = k := beq_iff_eq.1 (List.mem_filter.1 hmem).2
    subst hk
    rw [selectEffective_strongest, List.filter_append] at hhead
    rw [ht.mem_effective, hu.mem_effective]
    exact head?_selectEffective_append hhead

/-- A merge takes no further members out of use. -/
theorem unusable_merge (ht : t.Gathers xs) (hu : u.Gathers ys) :
    (t.merge u).unusable = t.unusable.union u.unusable := by
  refine SortedSet.ext_mem fun m => mem_unusable_rebuild.trans (or_iff_right_of_imp ?_)
  rintro ⟨e, he, hvetoes, rfl⟩
  refine SortedSet.mem_union.2 ?_
  exact (ht.mem_effective_merge hu he).imp (fun h => ht.vetoed e h hvetoes) fun h => hu.vetoed e h hvetoes

theorem merge (ht : t.Gathers xs) (hu : u.Gathers ys) : (t.merge u).Gathers (xs ++ ys) where
  groups := ht.groups_merge hu
  current := current_merge t u
  vetoed e he hvetoes := mem_unusable_rebuild.2 (.inl ⟨e, he, hvetoes, rfl⟩)

/-- A table merged with itself has its candidates twice, and shows the same. -/
theorem view_merge_self (h : t.Gathers xs) : (t.merge t).view = t.view := by
  have heffective : (t.merge t).effective = t.effective := by
    refine effective_congr fun k => ?_
    rw [h.groups_merge h, h.groups, List.filter_append]
    simp only [List.append_eq_nil_iff, and_self]
    split
    · rfl
    · simp only [Option.map_some, selectEffective_strongest, head?_selectEffective_append_self]
  rw [current_merge t t, h.current, heffective]

end Gathers

theorem isSome_mergeAll {ts : List Table} : (mergeAll ts).isSome = true ↔ ∃ t, t ∈ ts := by
  cases ts with
  | nil => simp [mergeAll]
  | cons t ts => exact iff_of_true rfl ⟨t, List.mem_cons_self⟩

section

variable {ι : Type} {table? : ι → Option Table} {candidates : ι → List Edge}
  (hsome : ∀ {i t}, table? i = some t → t.Gathers (candidates i)) (hnone : ∀ {i}, table? i = none → candidates i = [])
include hsome hnone

theorem Gathers.foldl_merge {t : Table} {xs : List Edge} (ht : t.Gathers xs) (is : List ι) :
    ((is.filterMap table?).foldl Table.merge t).Gathers (xs ++ is.flatMap candidates) := by
  induction is generalizing t xs with
  | nil =>
    rw [List.flatMap_nil, List.append_nil]
    exact ht
  | cons i is ih =>
    rw [List.flatMap_cons]
    cases hi : table? i with
    | none =>
      rw [List.filterMap_cons_none hi, hnone hi, List.nil_append]
      exact ih ht
    | some u =>
      rw [List.filterMap_cons_some hi, List.foldl_cons, ← List.append_assoc]
      exact ih (ht.merge (hsome hi))

/-- The tables that there are merge into one that has the candidates of all. -/
theorem gathers_mergeAll (is : List ι) {u : Table} (h : mergeAll (is.filterMap table?) = some u) :
    u.Gathers (is.flatMap candidates) := by
  induction is with
  | nil => cases h
  | cons i is ih =>
    rw [List.flatMap_cons]
    cases hi : table? i with
    | none =>
      rw [List.filterMap_cons_none hi] at h
      rw [hnone hi, List.nil_append]
      exact ih h
    | some t =>
      rw [List.filterMap_cons_some hi] at h
      cases h
      exact (hsome hi).foldl_merge hsome hnone is

end

/-- Merging the tables of edges comes to the same as collecting the edges: the view is the same, with the
edges in order, what leaves and reaches each node, the categories and thereby the conflicts, and the
members out of use are those of either table. So the way in which three tables are merged does not show,
nor does merging a table with itself. -/
theorem merge_ofEdges (role role' role'' : String) (xs ys zs : List Edge) :
    let t := ofEdges role xs
    let u := ofEdges role' ys
    let v := ofEdges role'' zs
    ((t.merge u).view = (ofEdges role (xs ++ ys)).view ∧ (t.merge u).unusable = t.unusable.union u.unusable) ∧
      (((t.merge u).merge v).view = (t.merge (u.merge v)).view ∧
        ((t.merge u).merge v).unusable = (t.merge (u.merge v)).unusable) ∧
      (t.merge t).view = t.view ∧ (t.merge t).unusable = t.unusable := by
  intro t u v
  have ht : t.Gathers xs := gathers_ofEdges role xs
  have hu : u.Gathers ys := gathers_ofEdges role' ys
  have hv : v.Gathers zs := gathers_ofEdges role'' zs
  have hleft : ((t.merge u).merge v).Gathers (xs ++ (ys ++ zs)) := by
    rw [← List.append_assoc]
    exact (ht.merge hu).merge hv
  have hright : (t.merge (u.merge v)).Gathers (xs ++ (ys ++ zs)) := ht.merge (hu.merge hv)
  refine ⟨⟨(ht.merge hu).view_eq (gathers_ofEdges role (xs ++ ys)), ht.unusable_merge hu⟩,
    ⟨hleft.view_eq hright, ?_⟩, ht.view_merge_self, ?_⟩
  · rw [(ht.merge hu).unusable_merge hv, ht.unusable_merge hu, ht.unusable_merge (hu.merge hv),
      hu.unusable_merge hv]
    exact SortedSet.ext_mem fun m => by simp only [SortedSet.mem_union, or_assoc]
  · rw [ht.unusable_merge ht]
    exact SortedSet.ext_mem fun m => by rw [SortedSet.mem_union, or_self]

end Table

end TaxonomySet.Dimension
