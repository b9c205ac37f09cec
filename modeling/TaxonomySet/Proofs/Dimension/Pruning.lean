import Mathlib.Data.List.Permutation
import TaxonomySet.Proofs.Closure
import TaxonomySet.Proofs.Dimension.Merging
import TaxonomySet.Proofs.Order
import TaxonomySet.Proofs.Sample

namespace TaxonomySet.Dimension

namespace Edges

theorem mem_reachable_self (es : Edges) (node : QName) : node ∈ es.reachable node := by
  have hdomain : node ∈ ((SortedSet.ofList (es.all.toList.map (·.target))).insert node).toList :=
    SortedSet.mem_toList.2 (SortedSet.mem_insert.2 (.inl rfl))
  exact SortedSet.mem_ofList.2 (mem_closure_iff.2 ⟨node, List.mem_cons_self, hdomain, .refl⟩)

/-- What is reached from a node stands at the end of a chain of edges. -/
theorem mem_reachable_ofArray {es : Array Edge} {node n : QName} :
    n ∈ (ofArray es).reachable node ↔
      Relation.ReflTransGen (fun a b => ∃ e ∈ es.toList, e.source = a ∧ e.target = b) node n := by
  have hnext (a b : QName) : b ∈ ((ofArray es).leaving a).map (·.target) ↔
      ∃ e ∈ es.toList, e.source = a ∧ e.target = b := by
    simp only [leaving_ofArray, List.mem_map, List.mem_filter, beq_iff_eq, and_assoc]
  have hdomain (a : QName) : a ∈ ((SortedSet.ofList ((ofArray es).all.toList.map (·.target))).insert node).toList ↔
      a = node ∨ a ∈ es.toList.map (·.target) := by
    rw [SortedSet.mem_toList, SortedSet.mem_insert, SortedSet.mem_ofList]
    rfl
  unfold reachable
  rw [SortedSet.mem_ofList, mem_closure_of_closed]
  · simp only [hnext, List.mem_singleton, exists_eq_left]
  · intro a ha
    exact (hdomain a).2 (.inl (List.mem_singleton.1 ha))
  · intro a b hb
    obtain ⟨e, he, -, rfl⟩ := (hnext a b).1 hb
    exact (hdomain _).2 (.inr (List.mem_map_of_mem he))

end Edges

namespace Table

variable {t u : Table} {xs ys : List Edge}

/-- The second node is the first one or is led to from there by effective edges. -/
def Downstream (t : Table) (node n : QName) : Prop :=
  Relation.ReflTransGen (fun a b => ∃ e ∈ t.effective, e.source = a ∧ e.target = b) node n

theorem Current.mem_reachable (h : t.Current) {node n : QName} :
    n ∈ t.view.edges.reachable node ↔ t.Downstream node n := by
  rw [h.edges_eq]
  exact Edges.mem_reachable_ofArray

theorem current_withoutDownstream (t : Table) (node : QName) : (t.withoutDownstream node).Current :=
  current_rebuild _

/-- The edges that pass a test which their groups decide are those of the groups that pass. -/
theorem effective_filter (t : Table) {p : Edge → Bool} {q : EquivalenceKey → List Edge → Bool}
    (h : ∀ {k group}, t.groups.get? k = some group → ∀ e ∈ group, p e = q k group) :
    t.effective.filter p = { t with groups := t.groups.filter q }.effective := by
  unfold effective
  rw [Order.filter_mergeSort, SortedMap.filter_filterMap_values]
  exact fun hget e he => h hget e (mem_of_head?_selectEffective he)

theorem Grouped.source_eq (h : t.Grouped) {k : EquivalenceKey} {group : List Edge}
    (hget : t.groups.get? k = some group) {e : Edge} (he : e ∈ group) : k.source = .concept e.source :=
  congrArg EquivalenceKey.source (h.key_eq hget e he).symm

/-- The edges that leave a node are decided by the groups with that source. -/
theorem filter_source_congr (ht : t.Grouped) (hu : u.Grouped) {node : QName}
    (h : ∀ k, k.source = .concept node → t.groups.get? k = u.groups.get? k) :
    (t.effective.filter fun e => e.source == node) = u.effective.filter fun e => e.source == node := by
  have hfilter {t : Table} (ht : t.Grouped) : (t.effective.filter fun e => e.source == node) =
      { t with groups := t.groups.filter fun k _ => k.source == EndKey.concept node }.effective := by
    refine t.effective_filter fun hget e he => ?_
    rw [ht.source_eq hget he]
    simp
  rw [hfilter ht, hfilter hu]
  refine effective_congr fun k => ?_
  simp only [SortedMap.get?_filter]
  by_cases hk : k.source = .concept node
  · rw [h k hk]
  · have hne : (k.source == EndKey.concept node) = false := by simpa using hk
    simp [hne]

/-- A group that only the merged table has stays as it is. -/
theorem get?_merge_groups_of_none (hu : u.Grouped) {k : EquivalenceKey} (hk : t.groups.get? k = none) :
    (t.merge u).groups.get? k = u.groups.get? k := by
  change (t.insertAll u.groups.values.flatten).groups.get? k = _
  rw [get?_insertAll_groups, hk, SortedMap.filter_flatten_values Edge.key hu.key_eq]
  cases hget : u.groups.get? k with
  | none => rfl
  | some group =>
    have hne := hu.ne_nil hget
    obtain ⟨e, he⟩ := List.exists_mem_of_ne_nil group hne
    have hpriority : ∀ f ∈ group, Overridable.priority f = e.priority.toInt := fun f hf =>
      congrArg Int32.toInt (hu.priority_eq hget f hf e he)
    exact (foldl_enter group).trans (by rw [if_neg hne, strongest_of_forall hpriority])

/-- A group goes or stays with its source, whether or not an edge of it is effective. -/
theorem get?_withoutDownstream_of_source (h : t.Grouped) (node : QName) {n : QName} {k : EquivalenceKey}
    (hk : k.source = .concept n) :
    (t.withoutDownstream node).groups.get? k =
      if n ∈ t.view.edges.reachable node then none else t.groups.get? k := by
  rw [get?_withoutDownstream_groups]
  cases hget : t.groups.get? k with
  | none => simp
  | some group =>
    obtain ⟨first, rest, rfl⟩ := List.exists_cons_of_ne_nil (h.ne_nil hget)
    obtain rfl : n = first.source := EndKey.concept.inj (hk.symm.trans (h.source_eq hget List.mem_cons_self))
    by_cases hreach : first.source ∈ t.view.edges.reachable node
    · have hcontains : (t.view.edges.reachable node).contains first.source = true := hreach
      simp [Option.filter, hreach, hcontains]
    · have hcontains : (t.view.edges.reachable node).contains first.source = false := Bool.eq_false_iff.2 hreach
      simp [Option.filter, hreach, hcontains]

theorem Gathers.grouped (h : t.Gathers xs) : t.Grouped where
  ne_nil {k group} hget := by
    rw [h.groups] at hget
    split at hget
    · cases hget
    · rename_i hne
      cases hget
      exact strongest_ne_nil hne
  key_eq := h.key_eq
  priority_eq {k group} hget e he f hf := by
    rw [h.groups] at hget
    split at hget
    · cases hget
    · cases hget
      obtain ⟨hmem, hle⟩ := mem_strongest.1 he
      obtain ⟨hmem', hle'⟩ := mem_strongest.1 hf
      exact Int32.toInt_inj.1 (Int.le_antisymm (hle' e hmem) (hle f hmem'))

/-- A table without what is downstream of a node is one of the other candidates. -/
theorem Gathers.withoutDownstream (h : t.Gathers xs) (node : QName) :
    (t.withoutDownstream node).Gathers (xs.filter fun e => !(t.view.edges.reachable node).contains e.source) where
  groups k := by
    rw [List.filter_comm]
    by_cases hnil : (xs.filter fun e => e.key == k) = []
    · have hget : t.groups.get? k = none := by rw [h.groups, if_pos hnil]
      rw [get?_withoutDownstream_groups, hget, hnil, List.filter_nil, if_pos rfl, Option.filter_none]
    · obtain ⟨e, he⟩ := List.exists_mem_of_ne_nil _ hnil
      have hk (f : Edge) (hf : f ∈ xs.filter fun e => e.key == k) : k.source = .concept f.source :=
        congrArg EquivalenceKey.source (beq_iff_eq.1 (List.mem_filter.1 hf).2).symm
      have hsource (f : Edge) (hf : f ∈ xs.filter fun e => e.key == k) : f.source = e.source :=
        EndKey.concept.inj ((hk f hf).symm.trans (hk e he))
      rw [get?_withoutDownstream_of_source h.grouped node (hk e he), h.groups, if_neg hnil]
      by_cases hreach : e.source ∈ t.view.edges.reachable node
      · have hcontains : (t.view.edges.reachable node).contains e.source = true := hreach
        rw [if_pos hreach, if_pos (List.filter_eq_nil_iff.2 fun f hf => by simp [hsource f hf, hcontains])]
      · have hcontains : (t.view.edges.reachable node).contains e.source = false := Bool.eq_false_iff.2 hreach
        have hall : ((xs.filter fun e => e.key == k).filter fun e =>
            !(t.view.edges.reachable node).contains e.source) = xs.filter fun e => e.key == k :=
          List.filter_eq_self.2 fun f hf => by simp [hsource f hf, hcontains]
        rw [if_neg hreach, hall, if_neg hnil]
  current := current_withoutDownstream t node
  vetoed e he hvetoes := mem_unusable_rebuild.2 (.inl ⟨e, he, hvetoes, rfl⟩)

/-- The effective edges that are left are those whose source is not reached, in the same order. -/
theorem effective_withoutDownstream (h : t.Grouped) (node : QName) :
    (t.withoutDownstream node).effective =
      t.effective.filter fun e => !(t.view.edges.reachable node).contains e.source := by
  refine (t.effective_filter fun {k group} hget e he => ?_).symm
  obtain ⟨first, rest, rfl⟩ := List.exists_cons_of_ne_nil (h.ne_nil hget)
  have hsource : e.source = first.source :=
    EndKey.concept.inj ((h.source_eq hget he).symm.trans (h.source_eq hget List.mem_cons_self))
  simp [hsource]

theorem mem_effective_withoutDownstream (h : t.Grouped) (hcurrent : t.Current) {node : QName} {e : Edge} :
    e ∈ (t.withoutDownstream node).effective ↔ e ∈ t.effective ∧ ¬ t.Downstream node e.source := by
  rw [effective_withoutDownstream h, List.mem_filter, Bool.not_eq_true', Bool.eq_false_iff, ← hcurrent.mem_reachable]
  rfl

theorem rebuild_rebuild (t : Table) : t.rebuild.rebuild = t.rebuild := by
  have hunusable : t.rebuild.rebuild.unusable = t.rebuild.unusable := by
    refine SortedSet.ext_mem fun m => mem_unusable_rebuild.trans (or_iff_right_of_imp ?_)
    exact fun hvetoed => mem_unusable_rebuild.2 (.inl hvetoed)
  exact congrArg (fun unusable => { t.rebuild with unusable := unusable }) hunusable

/-- What has been cut off once is not there to be cut off again. -/
theorem withoutDownstream_withoutDownstream (h : t.Grouped) (hcurrent : t.Current) (node : QName) :
    (t.withoutDownstream node).withoutDownstream node = t.withoutDownstream node := by
  have hsub (n : QName) (hn : (t.withoutDownstream node).Downstream node n) : t.Downstream node n := by
    refine Relation.ReflTransGen.mono (fun a b => ?_) _ _ hn
    rintro ⟨e, he, hends⟩
    exact ⟨e, ((mem_effective_withoutDownstream h hcurrent).1 he).1, hends⟩
  have hgroups : ((t.withoutDownstream node).withoutDownstream node).groups = (t.withoutDownstream node).groups := by
    apply SortedMap.ext_get?
    intro k
    cases hget : (t.withoutDownstream node).groups.get? k with
    | none => rw [get?_withoutDownstream_groups, hget, Option.filter_none]
    | some group =>
      obtain ⟨e, he⟩ := List.exists_mem_of_ne_nil group ((h.withoutDownstream node).ne_nil hget)
      have hk := (h.withoutDownstream node).source_eq hget he
      have hfirst := get?_withoutDownstream_of_source h node hk
      rw [get?_withoutDownstream_of_source (h.withoutDownstream node) node hk, if_neg, hget]
      intro hreach
      rw [(current_withoutDownstream t node).mem_reachable] at hreach
      rw [if_pos (hcurrent.mem_reachable.2 (hsub _ hreach)), hget] at hfirst
      cases hfirst
  calc (t.withoutDownstream node).withoutDownstream node
    _ = { t.withoutDownstream node with
          groups := ((t.withoutDownstream node).withoutDownstream node).groups }.rebuild := rfl
    _ = (t.withoutDownstream node).rebuild := by rw [hgroups]
    _ = t.withoutDownstream node := rebuild_rebuild _

/-- A node that is cut off is left by the edges that leave it in the table merged in, and by no others. -/
theorem edgesFrom_merge_of_reachable (ht : t.Grouped) (hu : u.Grouped) (hcurrent : u.Current) {node n : QName}
    (hn : n ∈ t.view.edges.reachable node) (arcrole : Arcrole) :
    ((t.withoutDownstream node).merge u).edgesFrom n arcrole = u.edgesFrom n arcrole := by
  have hsource := filter_source_congr ((ht.withoutDownstream node).merge u) hu fun k hk =>
    get?_merge_groups_of_none hu ((get?_withoutDownstream_of_source ht node hk).trans (if_pos hn))
  rw [(current_merge _ u).edgesFrom_eq, hcurrent.edgesFrom_eq, ← List.filter_filter, ← List.filter_filter]
  rw [List.filter_comm, hsource, List.filter_comm]

/-- After a redirection a node is left by the edges that leave it in the other table, and by no
others. -/
theorem edgesFrom_merge_withoutDownstream (ht : t.Grouped) (hu : u.Grouped)
    (hcurrent : u.Current) (node : QName) (arcrole : Arcrole) :
    ((t.withoutDownstream node).merge u).edgesFrom node arcrole = u.edgesFrom node arcrole :=
  edgesFrom_merge_of_reachable ht hu hcurrent (Edges.mem_reachable_self _ _) arcrole

open scoped Classical in
/-- Pruning at a node takes out the effective edges that leave a node downstream and keeps the others as they were,
and it has taken out all of them at once. Whatever table is then merged in decides alone which edges leave a node
downstream. -/
theorem withoutDownstream_ofEdges (role role' : String) (xs ys : List Edge) (node : QName) :
    let t := ofEdges role xs
    let u := ofEdges role' ys
    let pruned := t.withoutDownstream node
    (pruned.view.edges.all.toList = t.view.edges.all.toList.filter fun e => decide ¬ t.Downstream node e.source) ∧
      pruned.withoutDownstream node = pruned ∧
      ∀ n, t.Downstream node n → ∀ arcrole, (pruned.merge u).edgesFrom n arcrole = u.edgesFrom n arcrole := by
  intro t u pruned
  have hgrouped : t.Grouped := (gathers_ofEdges role xs).grouped
  have hcurrent : t.Current := current_rebuild _
  refine ⟨?_, withoutDownstream_withoutDownstream hgrouped hcurrent node, fun n hn arcrole => ?_⟩
  · rw [(current_withoutDownstream t node).all_eq, hcurrent.all_eq, effective_withoutDownstream hgrouped]
    refine List.filter_congr fun e _ => ?_
    rw [Bool.eq_iff_iff, Bool.not_eq_true', Bool.eq_false_iff, decide_eq_true_iff, ← hcurrent.mem_reachable]
    rfl
  · have hreach := hcurrent.mem_reachable.2 hn
    exact edgesFrom_merge_of_reachable hgrouped (gathers_ofEdges role' ys).grouped (current_rebuild _) hreach arcrole

/-- An effective edge takes the member out of use. -/
def Vetoed (t : Table) (m : QName) : Prop := ∃ e ∈ t.effective, e.vetoes = true ∧ e.target = m

/-- An effective edge that does not leave a node downstream takes the member out of use. -/
def VetoedApart (t : Table) (node m : QName) : Prop :=
  ∃ e ∈ t.effective, e.vetoes = true ∧ e.target = m ∧ ¬ t.Downstream node e.source

theorem isUnusable_ofEdges {role : String} {m : QName} :
    (ofEdges role xs).isUnusable m = true ↔ (ofEdges role xs).Vetoed m := by
  refine mem_unusable_rebuild.trans (or_iff_left ?_)
  rw [unusable_insertAll]
  exact SortedSet.not_mem_empty m

/-- The members out of use stay so when edges are cut off and when a table is merged in. -/
theorem Gathers.isUnusable_merge_withoutDownstream (ht : t.Gathers xs) (hu : u.Gathers ys) (node m : QName) :
    ((t.withoutDownstream node).merge u).isUnusable m = true ↔ t.isUnusable m = true ∨ u.isUnusable m = true := by
  have hpruned : (t.withoutDownstream node).unusable = t.unusable := by
    refine SortedSet.ext_mem fun m => mem_unusable_rebuild.trans (or_iff_right_of_imp ?_)
    rintro ⟨e, he, hvetoes, rfl⟩
    exact ht.vetoed e ((mem_effective_withoutDownstream ht.grouped ht.current).1 he).1 hvetoes
  change m ∈ ((t.withoutDownstream node).merge u).unusable ↔ _
  rw [(ht.withoutDownstream node).unusable_merge hu, hpruned]
  exact SortedSet.mem_union

/-- An edge that a redirection cuts off still takes its target out of use. So the members out of use afterwards are
those of the table merged in and those of the edges that are left exactly if no member is out of use by edges alone
that have been cut off. -/
theorem isUnusable_redirected_iff (role role' : String) (xs ys : List Edge) (node m : QName) :
    let t := ofEdges role xs
    let u := ofEdges role' ys
    let redirected := (t.withoutDownstream node).merge u
    (redirected.isUnusable m = true ↔ u.isUnusable m = true ∨ t.Vetoed m) ∧
      ((redirected.isUnusable m = true ↔ u.isUnusable m = true ∨ t.VetoedApart node m) ↔
        (t.Vetoed m → u.isUnusable m = true ∨ t.VetoedApart node m)) := by
  intro t u redirected
  have hstays : redirected.isUnusable m = true ↔ u.isUnusable m = true ∨ t.Vetoed m := by
    rw [(gathers_ofEdges role xs).isUnusable_merge_withoutDownstream (gathers_ofEdges role' ys) node m,
      isUnusable_ofEdges, or_comm]
  have happart : t.VetoedApart node m → t.Vetoed m := by
    rintro ⟨e, he, hvetoes, htarget, -⟩
    exact ⟨e, he, hvetoes, htarget⟩
  refine ⟨hstays, ?_⟩
  rw [hstays]
  tauto

/-- The one edge takes its target out of use. -/
def vetoing : Edge := { Sample.edge .domainMember "n" "m" none with usable := false }

theorem effective_vetoing : (ofEdges "r" [vetoing]).effective = [vetoing] ∧ (ofEdges "q" []).effective = [] := by
  unfold vetoing
  constructor
  · cbv
  · cbv

theorem not_forall_isUnusable_redirected :
    ¬ ∀ (role role' : String) (xs ys : List Edge) (node m : QName),
      let t := ofEdges role xs
      let u := ofEdges role' ys
      ((t.withoutDownstream node).merge u).isUnusable m = true ↔ u.isUnusable m = true ∨ t.VetoedApart node m := by
  intro hall
  have hvetoed : (ofEdges "r" [vetoing]).Vetoed (Sample.name "m") :=
    ⟨vetoing, by simp [effective_vetoing.1], rfl, rfl⟩
  have hout := ((gathers_ofEdges "r" [vetoing]).isUnusable_merge_withoutDownstream (gathers_ofEdges "q" [])
    (Sample.name "n") (Sample.name "m")).2 (.inl (isUnusable_ofEdges.2 hvetoed))
  rcases (hall "r" "q" [vetoing] [] (Sample.name "n") (Sample.name "m")).1 hout with hother | ⟨e, he, -, -, hapart⟩
  · obtain ⟨e, he, -⟩ := isUnusable_ofEdges.1 hother
    rw [effective_vetoing.2] at he
    cases he
  · rw [effective_vetoing.1, List.mem_singleton] at he
    rw [he] at hapart
    exact hapart .refl

end Table

end TaxonomySet.Dimension
