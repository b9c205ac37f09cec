import Mathlib.Data.List.Induction
import TaxonomySet.Dimension.Table
import TaxonomySet.Proofs.Link.Override
import TaxonomySet.Proofs.Sorted

namespace TaxonomySet

open Overridable

namespace Dimension

namespace Edges

theorem leaving_ofArray (es : Array Edge) (node : QName) :
    (ofArray es).leaving node = es.toList.filter fun e => e.source == node := by
  unfold leaving ofArray
  rw [Positions.select_ofArray]
  rfl

theorem fromNode_ofArray (es : Array Edge) (node : QName) (arcrole : Arcrole) :
    (ofArray es).fromNode node arcrole =
      es.toList.filter fun e => e.source == node && e.arcrole == arcrole := by
  unfold fromNode
  rw [leaving_ofArray, List.filter_filter]
  exact List.filter_congr fun e _ => Bool.and_comm _ _

theorem toNode_ofArray (es : Array Edge) (node : QName) (arcrole : Arcrole) :
    (ofArray es).toNode node arcrole =
      es.toList.filter fun e => e.target == node && e.arcrole == arcrole := by
  unfold toNode ofArray
  rw [Positions.select_ofArray, List.filter_filter]
  exact List.filter_congr fun e _ => Bool.and_comm _ _

theorem hasHypercube_ofArray (es : Array Edge) (node : QName) :
    (ofArray es).hasHypercube node =
      es.toList.filter fun e => e.source == node && e.arcrole.isHasHypercube := by
  unfold hasHypercube
  rw [leaving_ofArray, List.filter_filter]
  exact List.filter_congr fun e _ => Bool.and_comm _ _

end Edges

namespace Table

/-- What insertions keep: a group has candidates, they are those of its key, and their priorities are
the same. -/
structure Grouped (t : Table) : Prop where
  ne_nil : ∀ {k group}, t.groups.get? k = some group → group ≠ []
  key_eq : ∀ {k group}, t.groups.get? k = some group → ∀ e ∈ group, e.key = k
  priority_eq : ∀ {k group}, t.groups.get? k = some group →
    ∀ e ∈ group, ∀ f ∈ group, e.priority = f.priority

/-- The view shows the effective edges. -/
def Current (t : Table) : Prop := t.view = .ofArray t.effective.toArray

theorem grouped_empty (role : String) : Grouped { role } where
  ne_nil h := by cases h
  key_eq h := by cases h
  priority_eq h := by cases h

/-- A group after a candidate has been entered is as before, the candidate alone, or both together;
they stand together only at one priority. -/
theorem enter_cases (e : Edge) (group : List Edge) :
    enter e (some group) = group ∨ enter e (some group) = [e] ∨
      enter e (some group) = group ++ [e] ∧ ∃ f ∈ group, f.priority = e.priority := by
  unfold enter
  split
  · exact .inr (.inl rfl)
  · exact .inr (.inl rfl)
  · rename_i first rest heq
    cases heq
    split
    · exact .inl rfl
    · split
      · exact .inr (.inl rfl)
      · rename_i hlt hgt
        have heq : first.priority = e.priority :=
          Int32.le_antisymm (Int32.not_lt.1 hlt) (Int32.not_lt.1 hgt)
        exact .inr (.inr ⟨rfl, first, by simp, heq⟩)

theorem get?_insert_groups (t : Table) (e : Edge) (k : EquivalenceKey) :
    (t.insert e).groups.get? k =
      if k = e.key then some (enter e (t.groups.get? k)) else t.groups.get? k := by
  unfold insert
  by_cases hk : k = e.key
  · subst hk
    rw [if_pos rfl]
    exact SortedMap.get?_alter_self _ _ _
  · rw [if_neg hk]
    exact SortedMap.get?_alter_of_ne _ _ hk

/-- A group is made of the strongest of the candidates entered. -/
theorem foldl_enter (es : List Edge) :
    es.foldl (fun group e => some (enter e group)) none = if es = [] then none else some (strongest es) := by
  induction es using List.reverseRecOn with
  | nil => rfl
  | append_singleton es e ih =>
    have hne : es ++ [e] ≠ [] := List.append_ne_nil_of_right_ne_nil _ (List.cons_ne_nil _ _)
    rw [List.foldl_append, ih, if_neg hne, List.foldl_cons, List.foldl_nil, Option.some_inj]
    by_cases hes : es = []
    · subst hes
      have htop : topPriority? [e] = some (priority e) := topPriority?_of_forall (by simp) (by simp)
      rw [if_pos rfl, List.nil_append, strongest_of_top htop]
      simp [enter]
    · rw [if_neg hes]
      cases htop : topPriority? es with
      | none => exact absurd (topPriority?_eq_none_iff.1 htop) hes
      | some top =>
        obtain ⟨first, rest, hcons⟩ := List.exists_cons_of_ne_nil (strongest_ne_nil hes)
        have hfirst : first ∈ strongest es := by
          rw [hcons]
          exact List.mem_cons_self
        rw [strongest_of_top htop] at hfirst
        have hpriority : first.priority.toInt = top := beq_iff_eq.1 (List.mem_filter.1 hfirst).2
        rw [strongest_concat htop, hcons, ← hpriority]
        simp only [enter, Int32.lt_iff_toInt_lt]
        rfl

theorem get?_insertAll_groups (t : Table) (es : List Edge) (k : EquivalenceKey) :
    (t.insertAll es).groups.get? k =
      (es.filter fun e => e.key == k).foldl (fun group e => some (enter e group)) (t.groups.get? k) := by
  have hgroups : (t.insertAll es).groups = es.foldl (fun groups e => groups.alter e.key (enter e)) t.groups := by
    unfold insertAll
    induction es generalizing t with
    | nil => rfl
    | cons e es ih => exact ih (t.insert e)
  rw [hgroups, SortedMap.get?_foldl_alter]

theorem Grouped.insert {t : Table} (h : t.Grouped) (e : Edge) : (t.insert e).Grouped := by
  have hcases {k : EquivalenceKey} {group : List Edge}
      (hget : (t.insert e).groups.get? k = some group) :
      t.groups.get? k = some group ∨ k = e.key ∧ (group = [e] ∨ ∃ old, t.groups.get? k = some old ∧
        group = old ++ [e] ∧ ∃ f ∈ old, f.priority = e.priority) := by
    rw [get?_insert_groups] at hget
    split at hget
    · rename_i hk
      cases hold : t.groups.get? k with
      | none =>
        rw [hold] at hget
        exact .inr ⟨hk, .inl (Option.some.inj hget).symm⟩
      | some old =>
        rw [hold] at hget
        have hgroup := Option.some.inj hget
        rcases enter_cases e old with heq | heq | ⟨heq, hf⟩
        · exact .inl (by rw [← hgroup, heq])
        · exact .inr ⟨hk, .inl (by rw [← hgroup, heq])⟩
        · exact .inr ⟨hk, .inr ⟨old, rfl, by rw [← hgroup, heq], hf⟩⟩
    · exact .inl hget
  constructor
  · intro k group hget
    rcases hcases hget with hold | ⟨-, rfl | ⟨old, -, rfl, -⟩⟩
    · exact h.ne_nil hold
    · simp
    · simp
  · intro k group hget f hf
    rcases hcases hget with hold | ⟨hk, rfl | ⟨old, hold, rfl, -⟩⟩
    · exact h.key_eq hold f hf
    · rw [List.mem_singleton.1 hf, hk]
    · rcases List.mem_append.1 hf with hf | hf
      · exact h.key_eq hold f hf
      · rw [List.mem_singleton.1 hf, hk]
  · intro k group hget
    rcases hcases hget with hold | ⟨-, rfl | ⟨old, hold, rfl, g, hg, hge⟩⟩
    · exact h.priority_eq hold
    · simp
    · have hall : ∀ f ∈ old ++ [e], f.priority = e.priority := by
        intro f hf
        rcases List.mem_append.1 hf with hf | hf
        · rw [h.priority_eq hold f hf g hg, hge]
        · rw [List.mem_singleton.1 hf]
      intro a ha b hb
      rw [hall a ha, hall b hb]

theorem Grouped.insertAll {t : Table} (h : t.Grouped) (es : List Edge) : (t.insertAll es).Grouped := by
  unfold Table.insertAll
  induction es generalizing t with
  | nil => exact h
  | cons e es ih => exact ih (h.insert e)

theorem Grouped.of_groups {t u : Table} (h : t.Grouped) (heq : u.groups = t.groups) : u.Grouped where
  ne_nil hget := h.ne_nil (heq ▸ hget)
  key_eq hget := h.key_eq (heq ▸ hget)
  priority_eq hget := h.priority_eq (heq ▸ hget)

theorem Grouped.rebuild {t : Table} (h : t.Grouped) : t.rebuild.Grouped := h.of_groups rfl

theorem Grouped.merge {t : Table} (h : t.Grouped) (u : Table) : (t.merge u).Grouped :=
  (h.insertAll u.groups.values.flatten).of_groups rfl

/-- The groups that are left are those whose edges leave nodes that are not led to. -/
theorem get?_withoutDownstream_groups (t : Table) (node : QName) (k : EquivalenceKey) :
    (t.withoutDownstream node).groups.get? k = (t.groups.get? k).filter fun group =>
      group.head?.any fun e => !(t.view.edges.reachable node).contains e.source :=
  SortedMap.get?_filter _ _ _

theorem Grouped.withoutDownstream {t : Table} (h : t.Grouped) (node : QName) :
    (t.withoutDownstream node).Grouped := by
  have hkept {k : EquivalenceKey} {group : List Edge}
      (hget : (t.withoutDownstream node).groups.get? k = some group) :
      t.groups.get? k = some group := by
    rw [get?_withoutDownstream_groups] at hget
    exact (Option.filter_eq_some_iff.1 hget).1
  exact ⟨fun hget => h.ne_nil (hkept hget), fun hget => h.key_eq (hkept hget),
    fun hget => h.priority_eq (hkept hget)⟩

theorem current_rebuild (t : Table) : t.rebuild.Current := rfl

theorem current_merge (t u : Table) : (t.merge u).Current := current_rebuild _

@[simp] theorem role_insertAll (t : Table) (es : List Edge) : (t.insertAll es).role = t.role := by
  unfold insertAll
  induction es generalizing t with
  | nil => rfl
  | cons e es ih => exact ih (t.insert e)

theorem unusable_insertAll (t : Table) (es : List Edge) : (t.insertAll es).unusable = t.unusable := by
  unfold insertAll
  induction es generalizing t with
  | nil => rfl
  | cons e es ih => exact ih (t.insert e)

@[simp] theorem role_merge (t u : Table) : (t.merge u).role = t.role :=
  role_insertAll t u.groups.values.flatten

@[simp] theorem role_withoutDownstream (t : Table) (node : QName) :
    (t.withoutDownstream node).role = t.role := rfl

theorem mem_effective {t : Table} {e : Edge} :
    e ∈ t.effective ↔ ∃ k group, t.groups.get? k = some group ∧ (selectEffective group).head? = some e := by
  unfold effective
  rw [List.mem_mergeSort, List.mem_filterMap]
  constructor
  · rintro ⟨group, hgroup, he⟩
    obtain ⟨k, hk⟩ := SortedMap.mem_values_iff.1 hgroup
    exact ⟨k, group, hk, he⟩
  · rintro ⟨k, group, hk, he⟩
    exact ⟨group, SortedMap.mem_values_of_get? hk, he⟩

theorem mem_of_head?_selectEffective {group : List Edge} {e : Edge}
    (h : (selectEffective group).head? = some e) : e ∈ group := by
  have hmem := List.mem_of_head? h
  unfold selectEffective at hmem
  split at hmem
  · simp at hmem
  · dsimp only at hmem
    split at hmem
    · simp at hmem
    · exact List.mem_of_mem_filter hmem

/-- What counts of each group, in the order of the keys. -/
theorem Grouped.pairwise_candidates {t : Table} (h : t.Grouped) :
    (t.groups.values.filterMap fun group => (selectEffective group).head?).Pairwise fun e f =>
      compare e.key f.key = .lt := by
  unfold SortedMap.values
  rw [List.filterMap_map]
  refine List.pairwise_filterMap.2 (t.groups.sorted.imp_of_mem ?_)
  rintro ⟨k, g⟩ ⟨l, f⟩ hg hf hlt a ha b hb
  have hk := h.key_eq (SortedMap.get?_eq_some_iff.2 hg) a (mem_of_head?_selectEffective ha)
  have hl := h.key_eq (SortedMap.get?_eq_some_iff.2 hf) b (mem_of_head?_selectEffective hb)
  rwa [hk, hl]

theorem nodup_effective {t : Table} (h : t.Grouped) : t.effective.Nodup := by
  have hperm : t.effective.Perm (t.groups.values.filterMap fun group => (selectEffective group).head?) :=
    List.mergeSort_perm _ _
  refine hperm.nodup_iff.2 (h.pairwise_candidates.imp fun {e f} hlt heq => ?_)
  rw [heq, Std.compare_self] at hlt
  cases hlt

/-- Tables with the same groups, but for repetitions behind their first candidates, have the same
effective edges. -/
theorem effective_congr {t u : Table}
    (h : ∀ k, (t.groups.get? k).map (fun group => (selectEffective group).head?) =
      (u.groups.get? k).map fun group => (selectEffective group).head?) : t.effective = u.effective := by
  have hmaps : (t.groups.mapValues fun group => (selectEffective group).head?) =
      u.groups.mapValues fun group => (selectEffective group).head? := by
    apply SortedMap.ext_get?
    intro k
    rw [SortedMap.get?_mapValues, SortedMap.get?_mapValues, h]
  have hvalues := congrArg (fun m => m.values.filterMap id) hmaps
  simp only [SortedMap.values_mapValues, List.filterMap_map] at hvalues
  unfold effective
  exact congrArg (List.mergeSort · _) hvalues

namespace Current

variable {t : Table} (h : t.Current)
include h

theorem all_eq : t.view.edges.all.toList = t.effective := by rw [h]; rfl

theorem edges_eq : t.view.edges = .ofArray t.effective.toArray := by rw [h]; rfl

theorem edgesFrom_eq (node : QName) (arcrole : Arcrole) :
    t.edgesFrom node arcrole = t.effective.filter fun e => e.source == node && e.arcrole == arcrole := by
  unfold edgesFrom
  rw [h.edges_eq, Edges.fromNode_ofArray]

theorem edgesTo_eq (node : QName) (arcrole : Arcrole) :
    t.edgesTo node arcrole = t.effective.filter fun e => e.target == node && e.arcrole == arcrole := by
  unfold edgesTo
  rw [h.edges_eq, Edges.toNode_ofArray]

theorem hasHypercubeEdges_eq (node : QName) :
    t.hasHypercubeEdges node =
      t.effective.filter fun e => e.source == node && e.arcrole.isHasHypercube := by
  unfold hasHypercubeEdges
  rw [h.edges_eq, Edges.hasHypercube_ofArray]

theorem mem_edgesFrom {node : QName} {arcrole : Arcrole} {e : Edge} :
    e ∈ t.edgesFrom node arcrole ↔ e ∈ t.effective ∧ e.source = node ∧ e.arcrole = arcrole := by
  rw [h.edgesFrom_eq, List.mem_filter, Bool.and_eq_true, beq_iff_eq, beq_iff_eq]

theorem mem_edgesTo {node : QName} {arcrole : Arcrole} {e : Edge} :
    e ∈ t.edgesTo node arcrole ↔ e ∈ t.effective ∧ e.target = node ∧ e.arcrole = arcrole := by
  rw [h.edgesTo_eq, List.mem_filter, Bool.and_eq_true, beq_iff_eq, beq_iff_eq]

theorem mem_hasHypercubeEdges {node : QName} {e : Edge} :
    e ∈ t.hasHypercubeEdges node ↔
      e ∈ t.effective ∧ e.source = node ∧ e.arcrole.isHasHypercube = true := by
  rw [h.hasHypercubeEdges_eq, List.mem_filter, Bool.and_eq_true, beq_iff_eq]

end Current

end Table

/-- The tables that a collection has on its way. -/
def Collecting (tables : SortedMap String Table) : Prop :=
  ∀ role t, tables.get? role = some t → t.role = role ∧ t.Grouped

theorem Collecting.alter {tables : SortedMap String Table} (h : Collecting tables) (role : String)
    (es : List Edge) :
    Collecting (tables.alter role fun t => (t.getD { role := role }).insertAll es) := by
  intro r t hget
  by_cases hr : r = role
  · subst hr
    rw [SortedMap.get?_alter_self] at hget
    have ht := Option.some.inj hget
    subst ht
    cases hold : tables.get? r with
    | none => exact ⟨by simp, (Table.grouped_empty r).insertAll es⟩
    | some old => exact ⟨by simp [h r old hold], (h r old hold).2.insertAll es⟩
  · rw [SortedMap.get?_alter_of_ne _ _ hr] at hget
    exact h r t hget

theorem Collecting.enterLink {tables : SortedMap String Table} (h : Collecting tables)
    (resolve : Resolver) (l : ExtendedLink) : Collecting (enterLink resolve tables l) := by
  unfold Dimension.enterLink
  split
  · refine List.foldlRecOn (motive := Collecting) _ _ h fun tables htables a _ => ?_
    split
    · exact htables.alter l.role _
    · exact htables
  · exact h

/-- A collected table has the role that it is kept under, its groups are made by insertions, and its
view is up to date. -/
theorem of_get?_collect {resolve : Resolver} {links : List ExtendedLink} {role : String} {t : Table}
    (h : (collect resolve links).get? role = some t) : t.role = role ∧ t.Grouped ∧ t.Current := by
  have hall : Collecting (links.foldl (enterLink resolve) ∅) :=
    List.foldlRecOn (motive := Collecting) _ _ (fun _ _ h => by cases h)
      fun tables htables l _ => htables.enterLink resolve l
  unfold collect at h
  rw [SortedMap.get?_mapValues] at h
  obtain ⟨u, hu, rfl⟩ := Option.map_eq_some_iff.1 h
  exact ⟨(hall _ u hu).1, (hall _ u hu).2.rebuild, Table.current_rebuild u⟩

end Dimension

end TaxonomySet
