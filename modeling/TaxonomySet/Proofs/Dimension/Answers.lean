import TaxonomySet.Dimension.Query
import TaxonomySet.Proofs.Closure
import TaxonomySet.Proofs.Dimension.Table
import TaxonomySet.Proofs.Memo

namespace TaxonomySet.Dimension

namespace Space

/-- What holds of the tables of a taxonomy set: they are kept under their roles, insertions made their
groups, their views are up to date, and the ends of their edges are among the nodes. -/
structure WellFormed (s : Space) : Prop where
  role_eq : ∀ {role t}, s.tables.get? role = some t → t.role = role
  grouped : ∀ {role t}, s.tables.get? role = some t → t.Grouped
  current : ∀ {role t}, s.tables.get? role = some t → t.Current
  source_mem : ∀ {role t}, s.tables.get? role = some t → ∀ e ∈ t.effective, e.source ∈ s.nodes.toList
  target_mem : ∀ {role t}, s.tables.get? role = some t → ∀ e ∈ t.effective, e.target ∈ s.nodes.toList

/-- The nodes of a space hold the ends of what counts in its tables. -/
theorem mem_nodes_ofTables {tables : SortedMap String Table} (isTyped : QName → Bool) (cyclesOf : Arcrole → Cycles)
    {role : String} {t : Table} (ht : tables.get? role = some t) {e : Edge} (he : e ∈ t.effective) :
    e.source ∈ (ofTables tables isTyped cyclesOf).nodes.toList ∧
      e.target ∈ (ofTables tables isTyped cyclesOf).nodes.toList := by
  obtain ⟨k, group, hget, hhead⟩ := Table.mem_effective.1 he
  have hgroup : e ∈ t.groups.values.flatten := List.mem_flatten.2
    ⟨group, SortedMap.mem_values_of_get? hget, Table.mem_of_head?_selectEffective hhead⟩
  have hmem (q : QName) (hq : q = e.source ∨ q = e.target) :
      q ∈ (ofTables tables isTyped cyclesOf).nodes.toList := by
    refine SortedSet.mem_toList.2 (SortedSet.mem_ofList.2 (List.mem_flatMap.2
      ⟨t, SortedMap.mem_values_of_get? ht, List.mem_flatMap.2 ⟨e, hgroup, ?_⟩⟩))
    simpa using hq
  exact ⟨hmem _ (.inl rfl), hmem _ (.inr rfl)⟩

theorem wellFormed_ofTables {tables : SortedMap String Table} {isTyped : QName → Bool}
    {cyclesOf : Arcrole → Cycles}
    (h : ∀ role t, tables.get? role = some t → t.role = role ∧ t.Grouped ∧ t.Current) :
    (ofTables tables isTyped cyclesOf).WellFormed where
  role_eq ht := (h _ _ ht).1
  grouped ht := (h _ _ ht).2.1
  current ht := (h _ _ ht).2.2
  source_mem ht _ he := (mem_nodes_ofTables isTyped cyclesOf ht he).1
  target_mem ht _ he := (mem_nodes_ofTables isTyped cyclesOf ht he).2

/-- The hypercube at the end of an edge, for a primary item that the edge applies to. -/
def edgeHypercube (s : Space) (t : Table) (primary : QName) (e : Edge) :
    Except DimensionFault ResolvedHypercube :=
  (s.hypercube t e).map fun tree =>
    ⟨primary, e.target, t.role, e.arcrole, e.closed, e.contextElement, tree⟩

/-- A hypercube that a primary item is tied to in a role. -/
def findHypercube (s : Space) (primary hypercube : QName) (role : String) :
    Except DimensionFault ResolvedHypercube :=
  match s.tables.get? role with
  | none => .error (.notLinked primary hypercube role)
  | some t => do
    let edges ← s.hasHypercubeEdges t primary
    match edges.find? (·.target == hypercube) with
    | none => .error (.notLinked primary hypercube role)
    | some e => s.edgeHypercube t primary e

/-- All hypercubes that a primary item is tied to in a role. -/
def findHypercubes (s : Space) (primary : QName) (role : String) :
    Except DimensionFault (List ResolvedHypercube) :=
  match s.tables.get? role with
  | none => .ok []
  | some t => do
    let edges ← s.hasHypercubeEdges t primary
    (edges.eraseDupsBy fun a b => a.target == b.target).mapM (s.edgeHypercube t primary)

theorem findHypercube_of_error {s : Space} {role : String} {t : Table} (ht : s.tables.get? role = some t)
    {primary : QName} {f : DimensionFault} (h : s.hasHypercubeEdges t primary = .error f)
    (hypercube : QName) : s.findHypercube primary hypercube role = .error f := by
  unfold findHypercube
  rw [ht]
  simp only [h]
  rfl

theorem findHypercube_of_ok {s : Space} {role : String} {t : Table} (ht : s.tables.get? role = some t)
    {primary hypercube : QName} {es : List Edge} (h : s.hasHypercubeEdges t primary = .ok es) {e : Edge}
    (he : es.find? (·.target == hypercube) = some e) :
    s.findHypercube primary hypercube role = s.edgeHypercube t primary e := by
  unfold findHypercube
  rw [ht]
  simp only [h]
  change (match es.find? (·.target == hypercube) with
    | none => _
    | some e => s.edgeHypercube t primary e) = _
  rw [he]

/-- Every tree that is kept is the one that an edge with its key leads to. So a query answers as if none were kept. -/
def Keeps (s : Space) (trees : Trees) : Prop :=
  ∀ key tree, trees.find? key = some tree → ∀ t e, s.tables.get? key.role = some t →
    e.target = key.hypercube → e.targetRole = key.targetRole → s.hypercube t e = .ok tree

theorem keeps_empty (s : Space) : s.Keeps {} := by
  intro key tree h
  cases h

/-- Edges that agree on where they lead have the same tree. -/
theorem hypercube_congr {s : Space} {t : Table} {e f : Edge} {tree : HypercubeTree}
    (htarget : e.target = f.target) (hrole : e.targetRole = f.targetRole)
    (h : s.hypercube t e = .ok tree) : s.hypercube t f = .ok tree := by
  unfold hypercube at h ⊢
  have hfollow : ∀ below, s.follow t e = .ok below → s.follow t f = .ok below := by
    intro below hbelow
    unfold follow at hbelow ⊢
    rw [← hrole, ← htarget]
    cases hr : e.targetRole with
    | none => simpa [hr] using hbelow
    | some role =>
      simp only [hr] at hbelow ⊢
      split at hbelow
      · rename_i heq
        rwa [if_pos heq]
      · rename_i hne
        rw [if_neg hne]
        cases hget : s.tables.get? role <;> simp_all
  cases hbelow : s.follow t e with
  | error fault =>
    rw [hbelow] at h
    cases h
  | ok below =>
    rw [hbelow] at h
    rw [hfollow below hbelow, ← htarget]
    exact h

end Space

namespace Query

variable {α β : Type} {s : Space}

/-- A query gives an answer whatever trees are kept, and keeps only trees that may be kept. -/
def Gives (s : Space) (q : Query α) (a : Except DimensionFault α) : Prop :=
  ∀ trees, s.Keeps trees → (q.answer trees).1 = a ∧ s.Keeps (q.answer trees).2

theorem gives_ofExcept (a : Except DimensionFault α) : (ofExcept a).Gives s a :=
  fun _ h => ⟨rfl, h⟩

theorem gives_pure (a : α) : Gives s (pure a) (.ok a) := fun _ h => ⟨rfl, h⟩

theorem gives_throw (f : DimensionFault) : Gives (α := α) s (throw f) (.error f) := fun _ h => ⟨rfl, h⟩

theorem gives_bind {q : Query α} {f : α → Query β} {a : Except DimensionFault α}
    {b : α → Except DimensionFault β} (hq : q.Gives s a) (hf : ∀ x, (f x).Gives s (b x)) :
    (q >>= f).Gives s (a >>= b) := by
  intro trees htrees
  obtain ⟨hanswer, hkeeps⟩ := hq trees htrees
  have hbind : (q >>= f).answer trees = match q.answer trees with
      | (.ok x, trees) => (f x).answer trees
      | (.error fault, trees) => (.error fault, trees) := by
    change ExceptT.bindCont f (q.answer trees).1 (q.answer trees).2 = _
    rcases q.answer trees with ⟨fault | x, trees'⟩ <;> rfl
  rw [hbind]
  rcases hrun : q.answer trees with ⟨fault | x, trees'⟩
  · rw [hrun] at hanswer hkeeps
    rw [← hanswer]
    exact ⟨rfl, hkeeps⟩
  · rw [hrun] at hanswer hkeeps
    rw [← hanswer]
    exact hf x trees' hkeeps

theorem gives_map {q : Query α} {a : Except DimensionFault α} (f : α → β) (hq : q.Gives s a) :
    (q >>= fun x => pure (f x)).Gives s (a.map f) := by
  have h := gives_bind hq fun x => gives_pure (s := s) (f x)
  cases a <;> exact h

theorem gives_mapM {f : α → Query β} {b : α → Except DimensionFault β} (hf : ∀ x, (f x).Gives s (b x))
    (xs : List α) : (xs.mapM f).Gives s (xs.mapM b) := by
  induction xs with
  | nil => exact gives_pure []
  | cons x xs ih =>
    rw [List.mapM_cons, List.mapM_cons]
    exact gives_bind (hf x) fun y => gives_bind ih fun ys => gives_pure (y :: ys)

/-- A tree under the key of an edge is the one that the edge leads to. -/
theorem gives_tree {t : Table} {e : Edge} (ht : s.tables.get? t.role = some t) :
    (tree ⟨t.role, e.target, e.targetRole⟩ fun _ => s.hypercube t e).Gives s (s.hypercube t e) := by
  intro trees htrees
  let key : TreeKey := ⟨t.role, e.target, e.targetRole⟩
  change (trees.compute key fun _ => s.hypercube t e).1 = _ ∧
    s.Keeps (trees.compute key fun _ => s.hypercube t e).2
  have hlook : (trees.look key).1 = trees.find? key := trees.look_fst key
  have hlooked : s.Keeps (trees.look key).2 := by
    intro k made hfind
    rw [Memo.find?_look] at hfind
    exact htrees k made hfind
  unfold Memo.compute
  rcases hrun : trees.look key with ⟨found | made, looked⟩
  · rw [hrun] at hlooked
    cases hmade : s.hypercube t e with
    | error fault => exact ⟨rfl, hlooked⟩
    | ok made =>
      have hnone : looked.find? key = none := by
        rw [hrun] at hlook
        have hfind := trees.find?_look key key
        rw [hrun] at hfind
        exact hfind.trans hlook.symm
      refine ⟨?_, ?_⟩
      · change Except.ok (looked.store key made).1 = .ok made
        rw [looked.store_fst, hnone, Option.getD_none]
      · intro k tree hfind t' f ht' htarget hrole
        change (looked.store key made).2.find? k = some tree at hfind
        rw [looked.find?_store, Option.or_eq_some_iff] at hfind
        rcases hfind with hold | ⟨-, hnew⟩
        · exact hlooked k tree hold t' f ht' htarget hrole
        · obtain ⟨hk, htree⟩ := Option.ite_none_right_eq_some.1 hnew
          cases htree
          cases beq_iff_eq.1 hk
          have htable : t = t' := Option.some.inj (ht.symm.trans ht')
          subst htable
          exact Space.hypercube_congr htarget.symm hrole.symm hmade
  · rw [hrun] at hlook hlooked
    have hmade := htrees key made hlook.symm t e ht rfl rfl
    exact ⟨hmade.symm, hlooked⟩

end Query

namespace Space

variable {s : Space} (hs : s.WellFormed)
include hs

theorem gives_resolveEdge {t : Table} {role : String} (ht : s.tables.get? role = some t)
    (primary : QName) (e : Edge) :
    (s.resolveEdge t primary e).Gives s (s.edgeHypercube t primary e) :=
  Query.gives_map _ (Query.gives_tree (by rw [hs.role_eq ht, ht]))

theorem gives_resolveHypercube (primary hypercube : QName) (role : String) :
    (s.resolveHypercube primary hypercube role).Gives s (s.findHypercube primary hypercube role) := by
  unfold resolveHypercube findHypercube
  cases ht : s.tables.get? role with
  | none => exact Query.gives_throw _
  | some t =>
    refine Query.gives_bind (Query.gives_ofExcept _) fun edges => ?_
    cases edges.find? (·.target == hypercube) with
    | none => exact Query.gives_throw _
    | some e => exact gives_resolveEdge hs ht primary e

theorem gives_hypercubesFor (primary : QName) (role : String) :
    (s.hypercubesFor primary role).Gives s (s.findHypercubes primary role) := by
  unfold hypercubesFor findHypercubes
  cases ht : s.tables.get? role with
  | none => exact Query.gives_pure []
  | some t =>
    exact Query.gives_bind (Query.gives_ofExcept _) fun edges =>
      Query.gives_mapM (gives_resolveEdge hs ht primary) _

end Space

end TaxonomySet.Dimension
