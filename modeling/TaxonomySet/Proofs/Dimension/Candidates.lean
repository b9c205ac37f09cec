import TaxonomySet.Proofs.Dimension.Table

namespace TaxonomySet.Dimension

open Overridable

namespace Table

theorem get?_ofEdges_groups (role : String) (es : List Edge) (k : EquivalenceKey) :
    (ofEdges role es).groups.get? k =
      if (es.filter fun e => e.key == k) = [] then none else some (strongest (es.filter fun e => e.key == k)) :=
  (get?_insertAll_groups { role } es k).trans (foldl_enter _)

/-- Tables of the same candidates: they show edges of the same groups at the same priorities, and
may differ in which of the tied edges of a group they show. -/
structure Alike (t u : Table) : Prop where
  role : t.role = u.role
  groups : ∀ k, Option.Rel List.Perm (t.groups.get? k) (u.groups.get? k)
  shown : (t.view.edges.all.toList.map fun e => (e.key, e.priority)).Perm
    (u.view.edges.all.toList.map fun e => (e.key, e.priority))

/-- What is shown of a group but for the choice among ties. -/
def shownOf (group : List Edge) : Option (EquivalenceKey × Int32) :=
  (selectEffective group).head?.map fun e => (e.key, e.priority)

theorem shownOf_perm {t : Table} (h : t.Grouped) {k : EquivalenceKey} {g g' : List Edge}
    (hg : t.groups.get? k = some g) (hperm : g.Perm g') : shownOf g = shownOf g' := by
  obtain ⟨e, he⟩ := List.exists_mem_of_ne_nil g (h.ne_nil hg)
  have hpriority : ∀ f ∈ g, priority f = e.priority.toInt := fun f hf =>
    congrArg Int32.toInt (h.priority_eq hg f hf e he)
  have hall : ∀ f ∈ g, (f.key, f.priority) = (k, e.priority) := fun f hf => by
    rw [h.key_eq hg f hf, h.priority_eq hg f hf e he]
  unfold shownOf
  rw [selectEffective_of_forall hpriority,
    selectEffective_of_forall fun f hf => hpriority f (hperm.mem_iff.2 hf), hperm.any_eq]
  split
  · rfl
  · have hhead (fs : List Edge) (hfs : fs ≠ []) (hsub : ∀ f ∈ fs, f ∈ g) :
        (fs.head?.map fun f => (f.key, f.priority)) = some (k, e.priority) := by
      obtain ⟨f, rest, rfl⟩ := List.exists_cons_of_ne_nil hfs
      exact congrArg some (hall f (hsub f List.mem_cons_self))
    rw [hhead g (h.ne_nil hg) fun _ hf => hf,
      hhead g' (List.ne_nil_of_mem (hperm.mem_iff.1 he)) fun _ hf => hperm.mem_iff.2 hf]

theorem map_effective_perm (t : Table) :
    (t.effective.map fun e => (e.key, e.priority)).Perm ((t.groups.mapValues shownOf).values.filterMap id) := by
  unfold effective
  refine ((List.mergeSort_perm _ _).map _).trans (.of_eq ?_)
  rw [List.map_filterMap, SortedMap.values_mapValues, List.filterMap_map]
  rfl

theorem alike_of_groups {t u : Table} (hrole : t.role = u.role) (ht : t.Grouped) (htcurrent : t.Current)
    (hucurrent : u.Current) (hgroups : ∀ k, Option.Rel List.Perm (t.groups.get? k) (u.groups.get? k)) :
    t.Alike u := by
  refine ⟨hrole, hgroups, ?_⟩
  have hshown : t.groups.mapValues shownOf = u.groups.mapValues shownOf := by
    refine SortedMap.ext_get? fun k => ?_
    rw [SortedMap.get?_mapValues, SortedMap.get?_mapValues]
    have hk := hgroups k
    generalize hg : t.groups.get? k = group, u.groups.get? k = group' at hk
    cases hk with
    | none => rfl
    | some hperm => exact congrArg some (shownOf_perm ht hg hperm)
  rw [htcurrent.all_eq, hucurrent.all_eq]
  refine (map_effective_perm t).trans ?_
  rw [hshown]
  exact (map_effective_perm u).symm

theorem role_ofEdges (role : String) (es : List Edge) : (ofEdges role es).role = role :=
  role_insertAll { role } es

theorem alike_ofEdges (role : String) {es fs : List Edge} (h : es.Perm fs) :
    (ofEdges role es).Alike (ofEdges role fs) := by
  have hrole : (ofEdges role es).role = (ofEdges role fs).role := by rw [role_ofEdges, role_ofEdges]
  refine alike_of_groups hrole ((grouped_empty role).insertAll es).rebuild (current_rebuild _) (current_rebuild _)
    fun k => ?_
  have hk := h.filter fun e => e.key == k
  rw [get?_ofEdges_groups, get?_ofEdges_groups]
  by_cases hfs : (fs.filter fun e => e.key == k) = []
  · rw [if_pos hfs, if_pos (hfs ▸ hk).eq_nil]
    exact .none
  · rw [if_neg hfs, if_neg fun hes => hfs (hes ▸ hk).symm.eq_nil]
    exact .some (strongest_perm hk)

end Table

/-- The edges that links contribute to the tables of their roles. -/
def contributions (resolve : Resolver) (links : List ExtendedLink) : List (String × List Edge) :=
  links.flatMap fun l =>
    if l.kind == .definition then
      l.arcList.filterMap fun a => (Arcrole.ofUri? a.arcrole).map fun arcrole =>
        (l.role, edgesOfArc resolve l a arcrole)
    else []

/-- Enters a contribution into the table of its role. -/
def contribute (tables : SortedMap String Table) (c : String × List Edge) : SortedMap String Table :=
  tables.alter c.1 fun t => (t.getD { role := c.1 }).insertAll c.2

theorem foldl_enterLink (resolve : Resolver) (links : List ExtendedLink) (tables : SortedMap String Table) :
    links.foldl (enterLink resolve) tables = (contributions resolve links).foldl contribute tables := by
  unfold contributions
  rw [List.foldl_flatMap]
  refine congrArg (List.foldl · tables links) (funext fun tables => funext fun l => ?_)
  unfold enterLink
  split
  · induction l.arcList generalizing tables with
    | nil => rfl
    | cons a arcs ih =>
      rw [List.foldl_cons, ih, List.filterMap_cons]
      cases Arcrole.ofUri? a.arcrole <;> rfl
  · rfl

theorem get?_collect (resolve : Resolver) (links : List ExtendedLink) (role : String) :
    (collect resolve links).get? role =
      if ((contributions resolve links).filter fun c => c.1 == role) = [] then none
      else some (.ofEdges role (((contributions resolve links).filter fun c => c.1 == role).flatMap (·.2))) := by
  have hget := SortedMap.get?_foldl_alter_getD Prod.fst (fun role => ({ role } : Table))
    (fun t (c : String × List Edge) => t.insertAll c.2) (contributions resolve links) ∅ role
  have hentered : ((contributions resolve links).foldl contribute ∅).get? role = _ := hget
  unfold collect
  rw [SortedMap.get?_mapValues, foldl_enterLink, hentered]
  split
  · rfl
  · rw [Option.map_some, Option.some_inj, Table.ofEdges, Table.insertAll, List.foldl_flatMap]
    rfl

theorem get?_collect_of_forall_ne (resolve : Resolver) {links : List ExtendedLink} {role : String}
    (h : ∀ l ∈ links, l.role ≠ role) : (collect resolve links).get? role = none := by
  rw [get?_collect, if_pos]
  refine List.filter_eq_nil_iff.2 fun c hc => ?_
  obtain ⟨l, hl, hc⟩ := List.mem_flatMap.1 hc
  split at hc
  · obtain ⟨a, -, hc⟩ := List.mem_filterMap.1 hc
    obtain ⟨arcrole, -, rfl⟩ := Option.map_eq_some_iff.1 hc
    exact mt beq_iff_eq.1 (h l hl)
  · cases hc

/-- The edges of a role that links make, overridden or not. -/
def arisingEdges (resolve : Resolver) (links : List ExtendedLink) (role : String) : List Edge :=
  ((contributions resolve links).filter fun c => c.1 == role).flatMap (·.2)

theorem get?_collect_eq_some {resolve : Resolver} {links : List ExtendedLink} {role : String} {t : Table}
    (h : (collect resolve links).get? role = some t) : t = .ofEdges role (arisingEdges resolve links role) := by
  rw [get?_collect] at h
  split at h
  · cases h
  · exact (Option.some.inj h).symm

theorem arisingEdges_eq_nil {resolve : Resolver} {links : List ExtendedLink} {role : String}
    (h : (collect resolve links).get? role = none) : arisingEdges resolve links role = [] := by
  rw [get?_collect] at h
  split at h
  · rename_i hnil
    unfold arisingEdges
    rw [hnil, List.flatMap_nil]
  · cases h

/-- The tables of links do not depend on the order of the links but for ties. -/
theorem collect_perm (resolve : Resolver) {links others : List ExtendedLink} (h : links.Perm others)
    (role : String) :
    Option.Rel Table.Alike ((collect resolve links).get? role) ((collect resolve others).get? role) := by
  have hcs : ((contributions resolve links).filter fun c => c.1 == role).Perm
      ((contributions resolve others).filter fun c => c.1 == role) := (h.flatMap_right _).filter _
  rw [get?_collect, get?_collect]
  by_cases hnil : ((contributions resolve others).filter fun c => c.1 == role) = []
  · rw [if_pos hnil, if_pos (hnil ▸ hcs).eq_nil]
    exact .none
  · rw [if_neg hnil, if_neg fun hnil' => hnil (hnil' ▸ hcs).symm.eq_nil]
    exact .some (Table.alike_ofEdges role (hcs.flatMap_right _))

end TaxonomySet.Dimension
