import Mathlib
import TaxonomySet.Conformance
import TaxonomySet.Proofs.Closure
import TaxonomySet.Proofs.Dimension.Inheritance
import TaxonomySet.Proofs.Sample

namespace TaxonomySet.Dimension

namespace Edges

/-- Below given nodes stands what edges lead to, one domain-member edge after the other. -/
theorem mem_memberClosure {es : Array Edge} {seeds : SortedSet QName} {n : QName} :
    n ∈ (ofArray es).memberClosure seeds ↔
      ∃ a ∈ seeds, Relation.ReflTransGen
        (fun a b => ∃ e ∈ es.toList, e.target = b ∧ e.arcrole = .domainMember ∧ e.source = a) a n := by
  have hnext (a b : QName) : b ∈ ((ofArray es).fromNode a .domainMember).map (·.target) ↔
      ∃ e ∈ es.toList, e.target = b ∧ e.arcrole = .domainMember ∧ e.source = a := by
    rw [fromNode_ofArray, List.mem_map]
    refine exists_congr fun e => ?_
    rw [List.mem_filter, Bool.and_eq_true, beq_iff_eq, beq_iff_eq]
    tauto
  have hdomain (a : QName) : a ∈ (seeds.insertAll ((ofArray es).all.toList.map (·.target))).toList ↔
      a ∈ es.toList.map (·.target) ∨ a ∈ seeds := SortedSet.mem_toList.trans SortedSet.mem_insertAll
  unfold memberClosure
  rw [SortedSet.mem_ofList, mem_closure_of_closed]
  · simp only [hnext, SortedSet.mem_toList]
  · exact fun a ha => (hdomain a).2 (.inr (SortedSet.mem_toList.1 ha))
  · intro a b hb
    obtain ⟨e, he, rfl, -⟩ := (hnext a b).1 hb
    exact (hdomain _).2 (.inl (List.mem_map_of_mem he))

end Edges

namespace View

theorem mem_nodes {v : View} {n : QName} :
    n ∈ v.nodes ↔ n ∈ v.primaryItems ∨ n ∈ v.hypercubes ∨ n ∈ v.dimensions ∨ n ∈ v.members := by
  unfold nodes
  simp only [SortedSet.mem_union, or_assoc]

/-- The conflicts are the nodes in several categories, each with all its categories. -/
theorem mem_conflicts {v : View} {c : Conflict} :
    c ∈ v.conflicts ↔ c.categories = v.categories c.node ∧ 1 < c.categories.length := by
  unfold conflicts
  rw [List.mem_filter, List.mem_map, decide_eq_true_iff]
  refine and_congr_left fun hlength => ⟨?_, fun hc => ?_⟩
  · rintro ⟨n, -, rfl⟩
    rfl
  · refine ⟨c.node, ?_, by rw [← hc]⟩
    rw [SortedSet.mem_toList, mem_nodes]
    by_contra hnone
    rw [hc] at hlength
    simp only [not_or] at hnone
    simp [categories, hnone] at hlength

/-- The conflicts come in the order of their nodes. -/
theorem pairwise_conflicts (v : View) :
    (v.conflicts.map (·.node)).Pairwise fun a b => compare a b = .lt := by
  have hnodes : (v.nodes.toList.map fun n => (⟨n, v.categories n⟩ : Conflict)).map Conflict.node = v.nodes.toList := by
    rw [List.map_map]
    exact List.map_id _
  exact (hnodes ▸ v.nodes.pairwise_toList).sublist (List.filter_sublist.map Conflict.node)

/-- The names of the categories that a node is in. -/
def names (v : View) (n : QName) : List String :=
  [("primary item", v.primaryItems), ("hypercube", v.hypercubes), ("dimension", v.dimensions),
    ("member", v.members)].filterMap fun (name, nodes) => if n ∈ nodes then some name else none

theorem map_text_categories (v : View) (n : QName) : (v.categories n).map Category.text = v.names n := by
  unfold categories names
  by_cases hp : n ∈ v.primaryItems <;> by_cases hh : n ∈ v.hypercubes <;>
    by_cases hd : n ∈ v.dimensions <;> by_cases hm : n ∈ v.members <;> simp [hp, hh, hd, hm, Category.text]

/-- A node in two categories or more is a conflict with their names. -/
theorem exists_mem_conflicts_names_iff {v : View} {n : QName} {names : List String} :
    (∃ c ∈ v.conflicts, c.node = n ∧ c.categories.map Category.text = names) ↔
      names = v.names n ∧ 2 ≤ names.length := by
  constructor
  · rintro ⟨c, hc, rfl, rfl⟩
    obtain ⟨hcategories, hlength⟩ := mem_conflicts.1 hc
    rw [List.length_map]
    exact ⟨by rw [hcategories, map_text_categories], hlength⟩
  · rintro ⟨rfl, hlength⟩
    rw [← map_text_categories, List.length_map] at hlength
    exact ⟨⟨n, v.categories n⟩, mem_conflicts.2 ⟨rfl, hlength⟩, rfl, map_text_categories v n⟩

/-- A node is reported for any two categories, of which primary item and member exclude each other. -/
theorem exists_mem_conflicts_iff {v : View} {n : QName} (hdisjoint : n ∈ v.members → n ∉ v.primaryItems) :
    (∃ c ∈ v.conflicts, c.node = n) ↔
      (n ∈ v.primaryItems ∨ n ∈ v.members) ∧ (n ∈ v.hypercubes ∨ n ∈ v.dimensions) ∨
        n ∈ v.hypercubes ∧ n ∈ v.dimensions := by
  have hconflict : (∃ c ∈ v.conflicts, c.node = n) ↔ 1 < (v.categories n).length := by
    constructor
    · rintro ⟨c, hc, rfl⟩
      obtain ⟨hcategories, hlength⟩ := mem_conflicts.1 hc
      rwa [← hcategories]
    · exact fun hlength => ⟨⟨n, v.categories n⟩, mem_conflicts.2 ⟨rfl, hlength⟩, rfl⟩
  rw [hconflict]
  unfold categories
  by_cases hp : n ∈ v.primaryItems <;> by_cases hm : n ∈ v.members <;>
    by_cases hh : n ∈ v.hypercubes <;> by_cases hd : n ∈ v.dimensions <;> simp_all

end View

namespace Table

/-- An edge ties the node, or one above it, to a hypercube. -/
def IsPrimaryItem (t : Table) (n : QName) : Prop :=
  ∃ e ∈ t.effective, e.arcrole.isHasHypercube = true ∧ Relation.ReflTransGen t.Above n e.source

/-- An edge ties primary items to the node, or the node to its dimensions. -/
def IsHypercube (t : Table) (n : QName) : Prop :=
  ∃ e ∈ t.effective, e.arcrole.isHasHypercube = true ∧ e.target = n ∨ e.arcrole = .hypercubeDimension ∧ e.source = n

/-- An edge ties a hypercube to the node, or the node to its domains. -/
def IsDimension (t : Table) (n : QName) : Prop :=
  ∃ e ∈ t.effective, e.arcrole = .hypercubeDimension ∧ e.target = n ∨
    (e.arcrole = .dimensionDomain ∨ e.arcrole = .dimensionDefault) ∧ e.source = n

/-- The node is a domain of a dimension or stands below one. -/
def IsBelowDimension (t : Table) (n : QName) : Prop :=
  ∃ e ∈ t.effective, (e.arcrole = .dimensionDomain ∨ e.arcrole = .dimensionDefault) ∧
    Relation.ReflTransGen t.Above n e.target

/-- The node is an end of a domain-member edge. -/
def IsMemberEnd (t : Table) (n : QName) : Prop :=
  ∃ e ∈ t.effective, e.arcrole = .domainMember ∧ (e.source = n ∨ e.target = n)

theorem mem_memberClosure_effective {t : Table} {seeds : SortedSet QName} {n : QName} :
    n ∈ (Edges.ofArray t.effective.toArray).memberClosure seeds ↔
      ∃ a ∈ seeds, Relation.ReflTransGen t.Above n a :=
  Edges.mem_memberClosure.trans (exists_congr fun _ => and_congr_right fun _ => Relation.reflTransGen_swap)

namespace Current

variable {t : Table} (h : t.Current) {n : QName}
include h

theorem mem_primaryItems : n ∈ t.view.primaryItems ↔ t.IsPrimaryItem n := by
  rw [h]
  refine mem_memberClosure_effective.trans ?_
  unfold IsPrimaryItem
  simp only [SortedSet.mem_ofList, List.mem_flatMap]
  constructor
  · rintro ⟨a, ⟨e, he, ha⟩, hreach⟩
    unfold View.primaryOf at ha
    split at ha
    · rename_i harcrole
      rw [List.mem_singleton.1 ha] at hreach
      exact ⟨e, he, harcrole, hreach⟩
    · cases ha
  · rintro ⟨e, he, harcrole, hreach⟩
    exact ⟨e.source, ⟨e, he, by simp [View.primaryOf, harcrole]⟩, hreach⟩

theorem mem_hypercubes : n ∈ t.view.hypercubes ↔ t.IsHypercube n := by
  rw [h]
  change n ∈ SortedSet.ofList (t.effective.flatMap View.hypercubesOf) ↔ _
  rw [SortedSet.mem_ofList, List.mem_flatMap]
  refine exists_congr fun e => and_congr_right fun _ => ?_
  unfold View.hypercubesOf
  cases e.arcrole <;> simp [Arcrole.isHasHypercube, eq_comm]

theorem mem_dimensions : n ∈ t.view.dimensions ↔ t.IsDimension n := by
  rw [h]
  change n ∈ SortedSet.ofList (t.effective.flatMap View.dimensionsOf) ↔ _
  rw [SortedSet.mem_ofList, List.mem_flatMap]
  refine exists_congr fun e => and_congr_right fun _ => ?_
  unfold View.dimensionsOf
  cases e.arcrole <;> simp [eq_comm]

theorem mem_members :
    n ∈ t.view.members ↔ (t.IsBelowDimension n ∨ t.IsMemberEnd n) ∧ ¬ t.IsPrimaryItem n := by
  have hdomains : n ∈ (Edges.ofArray t.effective.toArray).memberClosure
      (.ofList (t.effective.flatMap View.domainsOf)) ↔ t.IsBelowDimension n := by
    rw [mem_memberClosure_effective]
    simp only [SortedSet.mem_ofList, List.mem_flatMap]
    constructor
    · rintro ⟨a, ⟨e, he, ha⟩, hreach⟩
      unfold View.domainsOf at ha
      split at ha
      · rename_i harcrole
        exact ⟨e, he, .inl harcrole, List.mem_singleton.1 ha ▸ hreach⟩
      · rename_i harcrole
        exact ⟨e, he, .inr harcrole, List.mem_singleton.1 ha ▸ hreach⟩
      · cases ha
    · rintro ⟨e, he, harcrole, hreach⟩
      refine ⟨e.target, ⟨e, he, ?_⟩, hreach⟩
      unfold View.domainsOf
      rcases harcrole with harcrole | harcrole <;> rw [harcrole] <;> exact List.mem_singleton_self _
  have hends : n ∈ SortedSet.ofList (t.effective.flatMap View.memberEndsOf) ↔ t.IsMemberEnd n := by
    rw [SortedSet.mem_ofList, List.mem_flatMap]
    refine exists_congr fun e => and_congr_right fun _ => ?_
    unfold View.memberEndsOf
    split
    · rename_i harcrole
      simp [eq_of_beq harcrole, eq_comm]
    · rename_i harcrole
      exact iff_of_false List.not_mem_nil fun hend => harcrole (beq_iff_eq.2 hend.1)
  rw [← h.mem_primaryItems, h, ← hdomains, ← hends, ← SortedSet.mem_union]
  refine SortedSet.mem_filter.trans (and_congr_right fun _ => ?_)
  rw [Bool.not_eq_true', ← Bool.not_eq_true]
  rfl

end Current

/-- The node is an end of an edge. -/
def IsEnd (t : Table) (n : QName) : Prop :=
  ∃ e ∈ t.effective, e.source = n ∨ e.target = n

theorem isEnd_of_above {t : Table} {a b : QName} (hb : t.IsEnd b) (h : Relation.ReflTransGen t.Above a b) :
    t.IsEnd a := by
  rcases h.cases_head with rfl | ⟨c, ⟨e, he, htarget, -⟩, -⟩
  · exact hb
  · exact ⟨e, he, .inr htarget⟩

namespace Current

variable {t : Table} (h : t.Current)
include h

/-- The ends of the edges are in some category, and no other nodes are. -/
theorem mem_nodes_iff {n : QName} : n ∈ t.view.nodes ↔ t.IsEnd n := by
  rw [View.mem_nodes, h.mem_primaryItems, h.mem_hypercubes, h.mem_dimensions, h.mem_members]
  constructor
  · rintro (⟨e, he, -, habove⟩ | ⟨e, he, hends⟩ | ⟨e, he, hends⟩ | ⟨⟨e, he, -, habove⟩ | ⟨e, he, -, hends⟩, -⟩)
    · exact isEnd_of_above ⟨e, he, .inl rfl⟩ habove
    · exact ⟨e, he, hends.elim (.inr ·.2) (.inl ·.2)⟩
    · exact ⟨e, he, hends.elim (.inr ·.2) (.inl ·.2)⟩
    · exact isEnd_of_above ⟨e, he, .inr rfl⟩ habove
    · exact ⟨e, he, hends⟩
  · rintro ⟨e, he, hends⟩
    -- what is a primary item is no member, so that it is told apart before the arcroles are
    by_cases hprimary : t.IsPrimaryItem n
    · exact .inl hprimary
    · have hmember (hn : t.IsBelowDimension n ∨ t.IsMemberEnd n) :
          (t.IsBelowDimension n ∨ t.IsMemberEnd n) ∧ ¬ t.IsPrimaryItem n := ⟨hn, hprimary⟩
      cases harcrole : e.arcrole with
      | all | notAll =>
        have hcube : e.arcrole.isHasHypercube = true := by rw [harcrole]; rfl
        rcases hends with rfl | rfl
        · exact .inl ⟨e, he, hcube, .refl⟩
        · exact .inr (.inl ⟨e, he, .inl ⟨hcube, rfl⟩⟩)
      | hypercubeDimension =>
        rcases hends with rfl | rfl
        · exact .inr (.inl ⟨e, he, .inr ⟨harcrole, rfl⟩⟩)
        · exact .inr (.inr (.inl ⟨e, he, .inl ⟨harcrole, rfl⟩⟩))
      | dimensionDomain =>
        rcases hends with rfl | rfl
        · exact .inr (.inr (.inl ⟨e, he, .inr ⟨.inl harcrole, rfl⟩⟩))
        · exact .inr (.inr (.inr (hmember (.inl ⟨e, he, .inl harcrole, .refl⟩))))
      | dimensionDefault =>
        rcases hends with rfl | rfl
        · exact .inr (.inr (.inl ⟨e, he, .inr ⟨.inr harcrole, rfl⟩⟩))
        · exact .inr (.inr (.inr (hmember (.inl ⟨e, he, .inr harcrole, .refl⟩))))
      | domainMember => exact .inr (.inr (.inr (hmember (.inr ⟨e, he, harcrole, hends⟩))))

/-- The primary items are the sources of the edges to hypercubes and what domain-member edges lead to from primary
items, and no more than these. -/
theorem isLeast_primaryItems :
    IsLeast {s : Set QName |
        (∀ e ∈ t.effective, e.arcrole.isHasHypercube = true → e.source ∈ s) ∧
          ∀ e ∈ t.effective, e.arcrole = .domainMember → e.source ∈ s → e.target ∈ s}
      {n | n ∈ t.view.primaryItems} := by
  refine ⟨⟨fun e he hcube => h.mem_primaryItems.2 ⟨e, he, hcube, .refl⟩, fun e he harcrole hsource => ?_⟩, ?_⟩
  · obtain ⟨f, hf, hcube, habove⟩ := h.mem_primaryItems.1 hsource
    exact h.mem_primaryItems.2 ⟨f, hf, hcube, habove.head ⟨e, he, rfl, harcrole, rfl⟩⟩
  · rintro s ⟨hsources, hclosed⟩ n hn
    obtain ⟨f, hf, hcube, habove⟩ := h.mem_primaryItems.1 hn
    induction habove using Relation.ReflTransGen.head_induction_on with
    | refl => exact hsources f hf hcube
    | head hstep hrest ih =>
      obtain ⟨e, he, rfl, harcrole, rfl⟩ := hstep
      exact hclosed e he harcrole (ih (h.mem_primaryItems.2 ⟨f, hf, hcube, hrest⟩))

end Current

/-- The categories of a table are exact. The primary items are the least set that has the sources of the edges to
hypercubes and is closed under domain-member edges. Just the ends of edges are in some category. The conflicts are
the nodes in two categories or more, each once and in order, with the names of the categories. -/
theorem categories_ofEdges (role : String) (es : List Edge) :
    let v := (ofEdges role es).view
    let shown := v.edges.all.toList
    IsLeast {s : Set QName |
        (∀ e ∈ shown, e.arcrole = .all ∨ e.arcrole = .notAll → e.source ∈ s) ∧
          ∀ e ∈ shown, e.arcrole = .domainMember → e.source ∈ s → e.target ∈ s}
      {n | n ∈ v.primaryItems} ∧
      (∀ n, (n ∈ v.primaryItems ∨ n ∈ v.hypercubes ∨ n ∈ v.dimensions ∨ n ∈ v.members) ↔
        ∃ e ∈ shown, e.source = n ∨ e.target = n) ∧
      ((v.conflicts.map (·.node)).Pairwise fun a b => compare a b = .lt) ∧
      ∀ n names, (∃ c ∈ v.conflicts, c.node = n ∧ c.categories.map Category.text = names) ↔
        names = v.names n ∧ 2 ≤ names.length := by
  intro v shown
  have h : (ofEdges role es).Current := current_rebuild _
  have hshown : shown = (ofEdges role es).effective := h.all_eq
  have hcube (a : Arcrole) : a = .all ∨ a = .notAll ↔ a.isHasHypercube = true := by cases a <;> decide
  rw [hshown]
  simp only [hcube]
  exact ⟨h.isLeast_primaryItems, fun n => View.mem_nodes.symm.trans h.mem_nodes_iff, v.pairwise_conflicts,
    fun _ _ => View.exists_mem_conflicts_names_iff⟩

/-- Which nodes of a table are reported. Below a primary item there are only primary items, so that a node counts
as one of them also where it stands below the domain of a dimension. -/
theorem exists_conflict_iff (t : Table) (n : QName) :
    (∃ c ∈ t.rebuild.view.conflicts, c.node = n) ↔
      (t.IsPrimaryItem n ∨ t.IsBelowDimension n ∨ t.IsMemberEnd n) ∧ (t.IsHypercube n ∨ t.IsDimension n) ∨
        t.IsHypercube n ∧ t.IsDimension n := by
  have h := current_rebuild t
  rw [View.exists_mem_conflicts_iff, h.mem_primaryItems, h.mem_hypercubes, h.mem_dimensions, h.mem_members]
  · change (t.IsPrimaryItem n ∨ (t.IsBelowDimension n ∨ t.IsMemberEnd n) ∧ ¬ t.IsPrimaryItem n) ∧
      (t.IsHypercube n ∨ t.IsDimension n) ∨ t.IsHypercube n ∧ t.IsDimension n ↔ _
    tauto
  · rw [h.mem_members, h.mem_primaryItems]
    exact fun hmember => hmember.2

/-- A check finds a node in several categories exactly if the table tells so. -/
theorem exists_polymorphism_iff (t : Table) (n : QName) :
    (∃ categories, Finding.polymorphism t.role n categories ∈ Conformance.checkCategories [t]) ↔
      ∃ c ∈ t.view.conflicts, c.node = n := by
  unfold Conformance.checkCategories
  simp [List.flatMap_cons]

/-- A primary item is no member, also where it stands below the domain of a dimension, and it is reported exactly
if it is a hypercube or a dimension as well. -/
theorem polymorphism_primaryItem_iff {t : Table} {n : QName} (hprimary : t.IsPrimaryItem n) :
    (n ∈ t.rebuild.view.primaryItems ∧ n ∉ t.rebuild.view.members) ∧
      ((∃ c ∈ t.rebuild.view.conflicts, c.node = n) ↔ t.IsHypercube n ∨ t.IsDimension n) ∧
      ((∃ categories, Finding.polymorphism t.role n categories ∈ Conformance.checkCategories [t.rebuild]) ↔
        t.IsHypercube n ∨ t.IsDimension n) := by
  have h := current_rebuild t
  have hcategories : n ∈ t.rebuild.view.primaryItems ∧ n ∉ t.rebuild.view.members :=
    ⟨h.mem_primaryItems.2 hprimary, fun hmember => (h.mem_members.1 hmember).2 hprimary⟩
  have hiff : (∃ c ∈ t.rebuild.view.conflicts, c.node = n) ↔ t.IsHypercube n ∨ t.IsDimension n := by
    rw [exists_conflict_iff]
    tauto
  exact ⟨hcategories, hiff, (exists_polymorphism_iff t.rebuild n).trans hiff⟩

/-- A primary item is the domain of a dimension too. A member below is a hypercube besides. -/
def entangled : Table := .ofEdges "r" [
  Sample.edge .all "p" "h" none, Sample.edge .dimensionDomain "d" "p" none,
  Sample.edge .domainMember "p" "q" none, Sample.edge .hypercubeDimension "q" "d" none]

theorem effective_entangled :
    entangled.effective = [
      Sample.edge .dimensionDomain "d" "p" none, Sample.edge .all "p" "h" none,
      Sample.edge .domainMember "p" "q" none, Sample.edge .hypercubeDimension "q" "d" none] := by
  unfold entangled
  cbv

theorem polymorphism_entangled :
    entangled.IsPrimaryItem (Sample.name "q") ∧ entangled.IsBelowDimension (Sample.name "q") ∧
      entangled.IsHypercube (Sample.name "q") ∧
      ∃ categories, Finding.polymorphism entangled.role (Sample.name "q") categories ∈
        Conformance.checkCategories [entangled.rebuild] := by
  have habove : Relation.ReflTransGen entangled.Above (Sample.name "q") (Sample.name "p") :=
    .single ⟨Sample.edge .domainMember "p" "q" none, by simp [effective_entangled], rfl, rfl, rfl⟩
  have hprimary : entangled.IsPrimaryItem (Sample.name "q") :=
    ⟨Sample.edge .all "p" "h" none, by simp [effective_entangled], rfl, habove⟩
  have hbelow : entangled.IsBelowDimension (Sample.name "q") :=
    ⟨Sample.edge .dimensionDomain "d" "p" none, by simp [effective_entangled], .inl rfl, habove⟩
  have hhypercube : entangled.IsHypercube (Sample.name "q") :=
    ⟨Sample.edge .hypercubeDimension "q" "d" none, by simp [effective_entangled], .inr ⟨rfl, rfl⟩⟩
  exact ⟨hprimary, hbelow, hhypercube,
    (polymorphism_primaryItem_iff hprimary).2.2.2 (.inl hhypercube)⟩

/-- A primary item is the domain of a dimension, and nothing else. -/
def overlapping : Table := .ofEdges "r" [
  Sample.edge .all "p" "h" none, Sample.edge .dimensionDomain "d" "p" none]

theorem effective_overlapping :
    overlapping.effective = [Sample.edge .dimensionDomain "d" "p" none, Sample.edge .all "p" "h" none] := by
  unfold overlapping
  cbv

theorem conflicts_overlapping : overlapping.rebuild.view.conflicts = [] := by
  unfold overlapping
  cbv

theorem not_forall_polymorphism_primaryItem :
    ¬ ∀ (t : Table) (n : QName),
      (∃ e ∈ t.effective, e.arcrole.isHasHypercube = true ∧ Relation.ReflTransGen t.Above n e.source) →
      (∃ e ∈ t.effective, e.arcrole = .dimensionDomain ∧ Relation.ReflTransGen t.Above n e.target) →
      ∃ c ∈ t.rebuild.view.conflicts, c.node = n := by
  intro hall
  obtain ⟨c, hc, -⟩ := hall overlapping (Sample.name "p")
    ⟨Sample.edge .all "p" "h" none, by simp [effective_overlapping], rfl, .refl⟩
    ⟨Sample.edge .dimensionDomain "d" "p" none, by simp [effective_overlapping], rfl, .refl⟩
  rw [conflicts_overlapping] at hc
  cases hc

end Table

end TaxonomySet.Dimension
