import Mathlib
import TaxonomySet.Proofs.Dimension.Inheritance
import TaxonomySet.Proofs.Dimension.Pruning
import TaxonomySet.Proofs.Sample
import TaxonomySet.Proofs.Session

namespace TaxonomySet

namespace Dimension

/-- What a query leaves behind: the trees that are kept, and each path that a walk has had in its turn, the
last node of a path first. -/
structure Trail where
  trees : Trees
  paths : List (List QName) := []

/-- A query on its course. It may fail, and it may go deeper than it is allowed to. A walk on it knows the nodes on
its path, and turns back only where an edge leads to one of them. -/
abbrev Course (α : Type) := ExceptT DimensionFault (StateT Trail Option) α

namespace Course

variable {α β : Type}

/-- What a course comes to, with the trail afterwards; none if it goes too deep. -/
def outcome (c : Course α) (trail : Trail) : Option (Except DimensionFault α × Trail) := c.run trail

/-- The course of a walk that may go no deeper. -/
def cutShort : Course α := ExceptT.mk fun _ => none

/-- An answer that no walk is needed for. -/
def ofExcept (a : Except DimensionFault α) : Course α := ExceptT.mk (pure a)

/-- Goes on with a path. -/
def enter (path : List QName) : Course Unit :=
  modify fun trail => { trail with paths := trail.paths ++ [path] }

/-- The tree of a key, made if it is not there. -/
def tree (key : TreeKey) (make : Course HypercubeTree) : Course HypercubeTree :=
  ExceptT.mk fun trail =>
    match trail.trees.look key with
    | (some made, trees) => some (.ok made, { trail with trees := trees })
    | (none, trees) => do
      let (made, trail) ← make.outcome { trail with trees := trees }
      match made with
      | .error f => return (.error f, trail)
      | .ok made =>
        let (kept, trees) := trail.trees.store key made
        return (.ok kept, { trail with trees := trees })

/-- The edges that tie a node, or any node above it, to hypercubes, where the node is the last of a path. -/
def inherited (s : Space) (t : Table) : Nat → List QName → QName → Course (List Edge)
  | 0, _, _ => cutShort
  | depth + 1, path, node => do
    let above ← (t.edgesTo node .domainMember).mapM fun e =>
      if e.source ∈ path then do
        ofExcept (s.checkCycle t e)
        return []
      else do
        enter (e.source :: path)
        inherited s t depth (e.source :: path) e.source
    return t.hasHypercubeEdges node ++ above.flatten

/-- The edges that tie a primary item to hypercubes. -/
def hasHypercubeEdges (s : Space) (depth : Nat) (t : Table) (primary : QName) : Course (List Edge) := do
  enter [primary]
  let edges ← inherited s t depth [primary] primary
  return edges.eraseDups

/-- The tree of members at the end of an edge, where a path leads up to the edge. -/
def member (s : Space) : Nat → List QName → Table → Edge → Course Member
  | 0, _, _, _ => cutShort
  | depth + 1, path, t, e => do
    let usable := e.usable && !t.isUnusable e.target
    if e.target ∈ path then
      ofExcept (s.checkCycle t e)
      return ⟨e.target, usable, []⟩
    else
      let below ← ofExcept (s.follow t e)
      enter (e.target :: path)
      let children ← (below.edgesFrom e.target .domainMember).mapM (member s depth (e.target :: path) below)
      return ⟨e.target, usable, children⟩

/-- A dimension with the trees of its domains. -/
def dimension (s : Space) (depth : Nat) (path : List QName) (t : Table) (name : QName) :
    Course ResolvedDimension := do
  let typed := s.isTyped name
  let domains ← if typed then pure [] else
    (t.edgesFrom name .dimensionDomain).mapM (member s depth path t)
  return ⟨name, typed, s.default? name, domains⟩

/-- The dimension at the end of an edge, none if the edge leads back to the hypercube. -/
def dimensionOf (s : Space) (depth : Nat) (path : List QName) (t : Table) (e : Edge) :
    Course (Option ResolvedDimension) := do
  if e.target ∈ path then
    ofExcept (s.checkCycle t e)
    return none
  else
    let below ← ofExcept (s.follow t e)
    enter (e.target :: path)
    return some (← dimension s depth (e.target :: path) below e.target)

/-- The hypercube at the end of an edge with its dimensions. -/
def hypercube (s : Space) (depth : Nat) (t : Table) (e : Edge) : Course HypercubeTree := do
  let below ← ofExcept (s.follow t e)
  enter [e.target]
  let dimensions ← (below.edgesFrom e.target .hypercubeDimension).mapM (dimensionOf s depth [e.target] below)
  return ⟨e.target, dimensions.filterMap id⟩

/-- The hypercube at the end of an edge, for a primary item that the edge applies to. -/
def resolveEdge (s : Space) (depth : Nat) (t : Table) (primary : QName) (e : Edge) : Course ResolvedHypercube := do
  let tree ← tree ⟨t.role, e.target, e.targetRole⟩ (hypercube s depth t e)
  return ⟨primary, e.target, t.role, e.arcrole, e.closed, e.contextElement, tree⟩

/-- A hypercube that a primary item is tied to in a role. -/
def resolveHypercube (s : Space) (depth : Nat) (primary hypercube : QName) (role : String) :
    Course ResolvedHypercube := do
  let notLinked := DimensionFault.notLinked primary hypercube role
  let some t := s.tables.get? role | throw notLinked
  let edges ← hasHypercubeEdges s depth t primary
  let some e := edges.find? (·.target == hypercube) | throw notLinked
  resolveEdge s depth t primary e

/-- All hypercubes that a primary item is tied to in a role, its own first. -/
def hypercubesFor (s : Space) (depth : Nat) (primary : QName) (role : String) : Course (List ResolvedHypercube) :=
  match s.tables.get? role with
  | none => pure []
  | some t => do
    let edges ← hasHypercubeEdges s depth t primary
    (edges.eraseDupsBy fun a b => a.target == b.target).mapM (resolveEdge s depth t primary)

/-- A course comes to the answer of a query, whatever trees are kept, and keeps the same trees; a property holds
of all paths on the way. -/
def ComesTo (holds : List QName → Prop) (c : Course α) (q : Query α) : Prop :=
  ∀ trail : Trail, ∃ paths, (∀ path ∈ paths, holds path) ∧
    c.outcome trail = some ((q.answer trail.trees).1, ⟨(q.answer trail.trees).2, trail.paths ++ paths⟩)

variable {holds : List QName → Prop}

theorem comesTo_pure (a : α) : ComesTo holds (pure a) (pure a) :=
  fun trail => ⟨[], by simp, by rw [List.append_nil]; rfl⟩

theorem comesTo_throw (f : DimensionFault) : ComesTo (α := α) holds (throw f) (throw f) :=
  fun trail => ⟨[], by simp, by rw [List.append_nil]; rfl⟩

theorem comesTo_ofExcept (a : Except DimensionFault α) : ComesTo holds (ofExcept a) (Query.ofExcept a) :=
  fun trail => ⟨[], by simp, by rw [List.append_nil]; rfl⟩

theorem comesTo_enter {path : List QName} (h : holds path) : ComesTo holds (enter path) (pure ()) :=
  fun trail => ⟨[path], by simpa using h, rfl⟩

theorem comesTo_bind {c : Course α} {f : α → Course β} {q : Query α} {g : α → Query β} (hc : ComesTo holds c q)
    (hf : ∀ a trees, (q.answer trees).1 = .ok a → ComesTo holds (f a) (g a)) :
    ComesTo holds (c >>= f) (q >>= g) := by
  intro trail
  obtain ⟨paths, hpaths, hc⟩ := hc trail
  have hcourse : (c >>= f).outcome trail =
      (c.outcome trail).bind fun r => (ExceptT.bindCont f r.1) r.2 := rfl
  have hquery : (q >>= g).answer trail.trees =
      ExceptT.bindCont g (q.answer trail.trees).1 (q.answer trail.trees).2 := rfl
  rw [hcourse, hc, hquery, Option.bind_some]
  cases ha : (q.answer trail.trees).1 with
  | error fault => exact ⟨paths, hpaths, rfl⟩
  | ok a =>
    obtain ⟨more, hmore, hf⟩ := hf a _ ha ⟨(q.answer trail.trees).2, trail.paths ++ paths⟩
    refine ⟨paths ++ more, List.forall_mem_append.2 ⟨hpaths, hmore⟩, ?_⟩
    rw [← List.append_assoc]
    exact hf

theorem comesTo_mapM {f : α → Course β} {g : α → Query β} {xs : List α}
    (h : ∀ x ∈ xs, ComesTo holds (f x) (g x)) : ComesTo holds (xs.mapM f) (xs.mapM g) := by
  induction xs with
  | nil => exact comesTo_pure []
  | cons x xs ih =>
    rw [List.mapM_cons, List.mapM_cons]
    refine comesTo_bind (h x List.mem_cons_self) fun y _ _ => ?_
    refine comesTo_bind (ih fun z hz => h z (List.mem_cons_of_mem _ hz)) fun ys _ _ => ?_
    exact comesTo_pure (y :: ys)

theorem comesTo_tree {key : TreeKey} {c : Course HypercubeTree} {a : Except DimensionFault HypercubeTree}
    (h : ComesTo holds c (Query.ofExcept a)) : ComesTo holds (tree key c) (Query.tree key fun _ => a) := by
  intro trail
  have hanswer : (Query.tree key fun _ => a).answer trail.trees = trail.trees.compute key fun _ => a := rfl
  unfold outcome tree
  rw [hanswer, ExceptT.run_mk]
  unfold Memo.compute
  rcases trail.trees.look key with ⟨_ | made, trees⟩
  · obtain ⟨paths, hpaths, hc⟩ := h { trail with trees := trees }
    refine ⟨paths, hpaths, ?_⟩
    dsimp only
    rw [hc]
    cases a <;> rfl
  · exact ⟨[], by simp, by rw [List.append_nil]⟩

theorem comesTo_bind_ofExcept {c : Course α} {f : α → Course β} {a : Except DimensionFault α}
    {b : α → Except DimensionFault β} (hc : ComesTo holds c (Query.ofExcept a))
    (hf : ∀ x, a = .ok x → ComesTo holds (f x) (Query.ofExcept (b x))) :
    ComesTo holds (c >>= f) (Query.ofExcept (a >>= b)) := by
  have hbind : Query.ofExcept (a >>= b) = Query.ofExcept a >>= fun x => Query.ofExcept (b x) := by
    cases a <;> rfl
  rw [hbind]
  exact comesTo_bind hc fun x _ hx => hf x hx

theorem comesTo_mapM_ofExcept {f : α → Course β} {b : α → Except DimensionFault β} {xs : List α}
    (h : ∀ x ∈ xs, ComesTo holds (f x) (Query.ofExcept (b x))) :
    ComesTo holds (xs.mapM f) (Query.ofExcept (xs.mapM b)) := by
  have hmapM : Query.ofExcept (xs.mapM b) = xs.mapM fun x => Query.ofExcept (b x) := by
    clear h
    induction xs with
    | nil => rfl
    | cons x xs ih =>
      rw [List.mapM_cons, List.mapM_cons, ← ih]
      cases b x with
      | error f => rfl
      | ok y => cases xs.mapM b <;> rfl
  rw [hmapM]
  exact comesTo_mapM h

/-- A course may enter a path on its way. -/
theorem comesTo_enter_bind {path : List QName} {f : Unit → Course α} {q : Query α} (hpath : holds path)
    (hf : ComesTo holds (f ()) q) : ComesTo holds (enter path >>= f) q :=
  comesTo_bind (g := fun _ => q) (comesTo_enter hpath) fun _ _ _ => hf

end Course

namespace Space

variable {s : Space} {t : Table} {primary : QName} {path free : List QName}

/-- The nodes that the tables connect. -/
def ends (s : Space) : SortedSet QName :=
  .ofList (s.tables.values.flatMap fun t => t.view.edges.all.toList.flatMap fun e => [e.source, e.target])

/-- A path of the walks for a primary item. It holds no node twice, and none but the primary item that the tables
do not connect. -/
structure IsPath (s : Space) (primary : QName) (path : List QName) : Prop where
  nodup : path.Nodup
  mem : ∀ n ∈ path, n = primary ∨ n ∈ s.ends

theorem isPath_singleton {n : QName} (h : n = primary ∨ n ∈ s.ends) : s.IsPath primary [n] :=
  ⟨List.nodup_singleton n, by simpa using h⟩

theorem IsPath.cons (h : s.IsPath primary path) {n : QName} (hn : n ∉ path) (hends : n ∈ s.ends) :
    s.IsPath primary (n :: path) :=
  ⟨List.nodup_cons.2 ⟨hn, h.nodup⟩, List.forall_mem_cons.2 ⟨.inr hends, h.mem⟩⟩

/-- There are not more nodes on a path than the tables connect, and the primary item. -/
theorem IsPath.length_le (h : s.IsPath primary path) : path.length ≤ s.ends.size + 1 := by
  have hsub : path ⊆ primary :: s.ends.toList := fun n hn =>
    List.mem_cons.2 ((h.mem n hn).imp_right SortedSet.mem_toList.2)
  have hsize : s.ends.toList.length = s.ends.size := List.length_map _
  have hle := (List.subperm_of_subset h.nodup hsub).length_le
  rwa [List.length_cons, hsize] at hle

/-- Of the nodes that the tables connect those are left that are not on a path. -/
structure Leaves (s : Space) (path free : List QName) : Prop where
  nodup : free.Nodup
  mem_iff : ∀ n ∈ s.ends, n ∈ free ↔ n ∉ path

theorem Leaves.cons (h : s.Leaves path free) (n : QName) : s.Leaves (n :: path) (free.erase n) where
  nodup := h.nodup.erase n
  mem_iff m hm := by rw [h.nodup.mem_erase_iff, h.mem_iff m hm, List.mem_cons, not_or]

theorem mem_ends_of_table {role : String} (hs : s.WellFormed) (ht : s.tables.get? role = some t) {e : Edge}
    (he : e ∈ t.effective) : e.source ∈ s.ends ∧ e.target ∈ s.ends := by
  have hmem (n : QName) (hn : n ∈ [e.source, e.target]) : n ∈ s.ends := by
    refine SortedSet.mem_ofList.2 (List.mem_flatMap.2 ⟨t, SortedMap.mem_values_of_get? ht, ?_⟩)
    refine List.mem_flatMap.2 ⟨e, ?_, hn⟩
    rwa [(hs.current ht).all_eq]
  exact ⟨hmem _ (by simp), hmem _ (by simp)⟩

theorem leaves_singleton (hs : s.WellFormed) (n : QName) : s.Leaves [n] (s.nodes.toList.erase n) where
  nodup := s.nodes.nodup_toList.erase n
  mem_iff m hm := by
    have hnodes : m ∈ s.nodes.toList := by
      obtain ⟨t, ht, hm⟩ := List.mem_flatMap.1 (SortedSet.mem_ofList.1 hm)
      obtain ⟨e, he, hm⟩ := List.mem_flatMap.1 hm
      obtain ⟨role, ht⟩ := SortedMap.mem_values_iff.1 ht
      rw [(hs.current ht).all_eq] at he
      have hends : m = e.source ∨ m = e.target := by simpa using hm
      rcases hends with rfl | rfl
      · exact hs.source_mem ht e he
      · exact hs.target_mem ht e he
    rw [s.nodes.nodup_toList.mem_erase_iff, List.mem_singleton]
    exact and_iff_left hnodes

/-- A table made of edges that shows no edge but between nodes that the tables of the set connect. -/
structure Covers (s : Space) (t : Table) : Prop where
  gathers : ∃ es, t.Gathers es
  mem_ends : ∀ e ∈ t.effective, e.source ∈ s.ends ∧ e.target ∈ s.ends

/-- The tables of a set are made of edges. -/
structure Gathered (s : Space) : Prop extends s.WellFormed where
  gathers : ∀ {role t}, s.tables.get? role = some t → ∃ es, t.Gathers es

theorem Gathered.covers (hs : s.Gathered) {role : String} (ht : s.tables.get? role = some t) : s.Covers t :=
  ⟨hs.gathers ht, fun _ he => mem_ends_of_table hs.toWellFormed ht he⟩

theorem Covers.current (h : s.Covers t) : t.Current := by
  obtain ⟨es, hes⟩ := h.gathers
  exact hes.current

/-- Neither cutting off what is downstream nor merging in another table brings in nodes from elsewhere. -/
theorem Covers.redirect {u : Table} (h : s.Covers t) (hu : s.Covers u) (node : QName) :
    s.Covers ((t.withoutDownstream node).merge u) := by
  obtain ⟨xs, hxs⟩ := h.gathers
  obtain ⟨ys, hys⟩ := hu.gathers
  have hpruned := hxs.withoutDownstream node
  refine ⟨⟨_, hpruned.merge hys⟩, fun e he => ?_⟩
  rcases hpruned.mem_effective_merge hys he with he | he
  · exact h.mem_ends e ((Table.mem_effective_withoutDownstream hxs.grouped hxs.current).1 he).1
  · exact hu.mem_ends e he

theorem Covers.follow (hs : s.Gathered) (h : s.Covers t) {e : Edge} {below : Table}
    (hbelow : s.follow t e = .ok below) : s.Covers below := by
  unfold Space.follow at hbelow
  cases hrole : e.targetRole with
  | none =>
    rw [hrole] at hbelow
    cases hbelow
    exact h
  | some role =>
    simp only [hrole] at hbelow
    split at hbelow
    · cases hbelow
      exact h
    · split at hbelow
      · rename_i u hu
        cases hbelow
        exact h.redirect (hs.covers hu) e.target
      · cases hbelow

open Course

variable {depth : Nat}

/-- A walk turns back where an edge leads to a node on its path, and this is where the query has no such node
left. -/
theorem comesTo_turn {α : Type} (hpath : s.IsPath primary path) (hfree : s.Leaves path free) {n : QName}
    (hn : n ∈ s.ends) {e : Edge} {a : α} {c : Course α} {q : Except DimensionFault α}
    (hon : s.IsPath primary (n :: path) → ComesTo (s.IsPath primary) c (.ofExcept q)) :
    ComesTo (s.IsPath primary)
      (if n ∈ path then Course.ofExcept (s.checkCycle t e) >>= fun _ => pure a else c)
      (.ofExcept (if n ∈ free then q else s.checkCycle t e >>= fun _ => pure a)) := by
  by_cases hback : n ∈ path
  · rw [if_pos hback, if_neg fun hmem => (hfree.mem_iff n hn).1 hmem hback]
    exact comesTo_bind_ofExcept (comesTo_ofExcept _) fun _ _ => comesTo_pure _
  · rw [if_neg hback, if_pos ((hfree.mem_iff n hn).2 hback)]
    exact hon (hpath.cons hback hn)

theorem comesTo_inherited (h : s.Covers t) (hpath : s.IsPath primary path) (hfree : s.Leaves path free)
    (hdepth : s.ends.size + 1 < depth + path.length) (node : QName) :
    ComesTo (s.IsPath primary) (Course.inherited s t depth path node) (.ofExcept (s.inherited t free node)) := by
  -- the longer the path, the less depth is left, and both together do not change
  induction depth generalizing path free node with
  | zero => exact absurd hpath.length_le (by omega)
  | succ depth ih =>
    rw [Course.inherited, inherited_eq]
    refine comesTo_bind_ofExcept (comesTo_mapM_ofExcept fun e he => ?_) fun above _ => comesTo_pure _
    have hends := (h.mem_ends e (h.current.mem_edgesTo.1 he).1).1
    refine comesTo_turn hpath hfree hends fun hnext => comesTo_enter_bind hnext ?_
    exact ih hnext (hfree.cons _) (by rw [List.length_cons]; omega) _

theorem comesTo_member (hs : s.Gathered) (h : s.Covers t) (hpath : s.IsPath primary path)
    (hfree : s.Leaves path free) (hdepth : s.ends.size + 1 < depth + path.length) {e : Edge}
    (he : e ∈ t.effective) :
    ComesTo (s.IsPath primary) (Course.member s depth path t e) (.ofExcept (s.member free t e)) := by
  induction depth generalizing path free t e with
  | zero => exact absurd hpath.length_le (by omega)
  | succ depth ih =>
    rw [Course.member, Space.member]
    refine comesTo_turn hpath hfree (h.mem_ends e he).2 fun hnext => ?_
    refine comesTo_bind_ofExcept (comesTo_ofExcept _) fun below hbelow => ?_
    have hcovers := h.follow hs hbelow
    refine comesTo_enter_bind hnext (comesTo_bind_ofExcept (comesTo_mapM_ofExcept fun c hc => ?_)
      fun children _ => comesTo_pure _)
    exact ih hcovers hnext (hfree.cons _) (by rw [List.length_cons]; omega) (hcovers.current.mem_edgesFrom.1 hc).1

theorem mem_effective_of_hasHypercubeEdges (h : s.Covers t) {es : List Edge}
    (hes : s.hasHypercubeEdges t primary = .ok es) {e : Edge} (he : e ∈ es) : e ∈ t.effective := by
  obtain ⟨es', hes', rfl⟩ := Outcome.map_eq_ok.1 hes
  have hown := (source_of_mem_inherited h.current hes' (List.mem_eraseDups.1 he)).2
  exact (h.current.mem_hasHypercubeEdges.1 hown).1

section

variable (hdepth : s.ends.size < depth)
include hdepth

theorem comesTo_hasHypercubeEdges (hs : s.Gathered) (h : s.Covers t) (primary : QName) :
    ComesTo (s.IsPath primary) (Course.hasHypercubeEdges s depth t primary)
      (.ofExcept (s.hasHypercubeEdges t primary)) := by
  have hpath : s.IsPath primary [primary] := isPath_singleton (.inl rfl)
  have hmap : s.hasHypercubeEdges t primary =
      s.inherited t (s.nodes.toList.erase primary) primary >>= fun edges => pure edges.eraseDups := by
    unfold Space.hasHypercubeEdges
    cases s.inherited t (s.nodes.toList.erase primary) primary <;> rfl
  rw [hmap]
  refine comesTo_enter_bind hpath (comesTo_bind_ofExcept ?_ fun edges _ => comesTo_pure _)
  exact comesTo_inherited h hpath (leaves_singleton hs.toWellFormed primary) (by rw [List.length_singleton]; omega) _

theorem comesTo_dimension (hs : s.Gathered) (h : s.Covers t) {n : QName} (hpath : s.IsPath primary (n :: path))
    (hfree : s.Leaves (n :: path) free) (name : QName) :
    ComesTo (s.IsPath primary) (Course.dimension s depth (n :: path) t name)
      (.ofExcept (s.dimension free t name)) := by
  unfold Course.dimension Space.dimension
  cases s.isTyped name with
  | true => exact comesTo_pure _
  | false =>
    refine comesTo_bind_ofExcept (comesTo_mapM_ofExcept fun e he => ?_) fun domains _ => comesTo_pure _
    exact comesTo_member hs h hpath hfree (by rw [List.length_cons]; omega) (h.current.mem_edgesFrom.1 he).1

theorem comesTo_dimensionOf (hs : s.Gathered) (h : s.Covers t) (hpath : s.IsPath primary path)
    (hfree : s.Leaves path free) {e : Edge} (he : e ∈ t.effective) :
    ComesTo (s.IsPath primary) (Course.dimensionOf s depth path t e) (.ofExcept (s.dimensionOf free t e)) := by
  unfold Course.dimensionOf Space.dimensionOf
  refine comesTo_turn hpath hfree (h.mem_ends e he).2 fun hnext => ?_
  refine comesTo_bind_ofExcept (comesTo_ofExcept _) fun below hbelow => ?_
  exact comesTo_enter_bind hnext (comesTo_bind_ofExcept
    (comesTo_dimension hdepth hs (h.follow hs hbelow) hnext (hfree.cons _) _) fun d _ => comesTo_pure _)

theorem comesTo_hypercube (hs : s.Gathered) (h : s.Covers t) {e : Edge} (he : e ∈ t.effective) :
    ComesTo (s.IsPath primary) (Course.hypercube s depth t e) (.ofExcept (s.hypercube t e)) := by
  have hpath : s.IsPath primary [e.target] := isPath_singleton (.inr (h.mem_ends e he).2)
  unfold Course.hypercube Space.hypercube
  refine comesTo_bind_ofExcept (comesTo_ofExcept _) fun below hbelow => ?_
  have hcovers := h.follow hs hbelow
  refine comesTo_enter_bind hpath (comesTo_bind_ofExcept (comesTo_mapM_ofExcept fun d hd => ?_)
    fun dimensions _ => comesTo_pure _)
  exact comesTo_dimensionOf hdepth hs hcovers hpath (leaves_singleton hs.toWellFormed _)
    (hcovers.current.mem_edgesFrom.1 hd).1

theorem comesTo_resolveEdge (hs : s.Gathered) (h : s.Covers t) {e : Edge} (he : e ∈ t.effective) :
    ComesTo (s.IsPath primary) (Course.resolveEdge s depth t primary e) (s.resolveEdge t primary e) :=
  comesTo_bind (comesTo_tree (comesTo_hypercube hdepth hs h he)) fun _ _ _ => comesTo_pure _

theorem comesTo_resolveHypercube (hs : s.Gathered) (primary hypercube : QName) (role : String) :
    ComesTo (s.IsPath primary) (Course.resolveHypercube s depth primary hypercube role)
      (s.resolveHypercube primary hypercube role) := by
  unfold Course.resolveHypercube Space.resolveHypercube
  cases ht : s.tables.get? role with
  | none => exact comesTo_throw _
  | some t =>
    have h := hs.covers ht
    refine comesTo_bind (comesTo_hasHypercubeEdges hdepth hs h primary) fun edges _ hedges => ?_
    cases hfind : edges.find? (·.target == hypercube) with
    | none => exact comesTo_throw _
    | some e =>
      exact comesTo_resolveEdge hdepth hs h (mem_effective_of_hasHypercubeEdges h hedges (List.mem_of_find?_eq_some hfind))

theorem comesTo_hypercubesFor (hs : s.Gathered) (primary : QName) (role : String) :
    ComesTo (s.IsPath primary) (Course.hypercubesFor s depth primary role) (s.hypercubesFor primary role) := by
  unfold Course.hypercubesFor Space.hypercubesFor
  cases ht : s.tables.get? role with
  | none => exact comesTo_pure []
  | some t =>
    have h := hs.covers ht
    refine comesTo_bind (comesTo_hasHypercubeEdges hdepth hs h primary) fun edges _ hedges => ?_
    refine comesTo_mapM fun e he => ?_
    exact comesTo_resolveEdge hdepth hs h (mem_effective_of_hasHypercubeEdges h hedges
      ((eraseDupsBy_sublist_nodup Edge.target edges).1.subset he))

end

end Space

end Dimension

namespace Session

open Dimension

theorem Settled.gathered {s : Session} (h : s.Settled) : s.space.Gathered where
  toWellFormed := h.wellFormed
  gathers {role t} ht := by
    have htables : s.space.tables = collect s.dts.resolve s.dts.links := by
      unfold space
      rw [h.index_eq]
      rfl
    rw [htables] at ht
    exact ⟨_, Table.gathers_of_get?_collect ht⟩

theorem outcome_of_comesTo {α : Type} {s : Session} {primary : QName} {c : Course α} {q : Query α}
    (h : c.ComesTo (s.space.IsPath primary) q) :
    ∃ paths, c.outcome { trees := s.trees } = some ((s.query q).1, ⟨(s.query q).2.trees, paths⟩) ∧
      ∀ path ∈ paths, s.space.IsPath primary path ∧ path.length ≤ s.space.ends.size + 1 := by
  obtain ⟨paths, hpaths, houtcome⟩ := h { trees := s.trees }
  obtain ⟨-, -, htrees⟩ := query_dts s q
  refine ⟨paths, ?_, fun path hpath => ⟨hpaths path hpath, (hpaths path hpath).length_le⟩⟩
  rw [houtcome, query_fst, htrees, List.nil_append]

/-- The courses of both queries come to an end in every set that has been derived: whatever roles the edges lead
into, whatever cycles they form and whether cycles are allowed or not. No walk goes deeper than the tables connect
nodes, and with that depth or any greater one the outcome is what the session answers. No path on the way holds a
node twice, and but for the primary item it holds only nodes that the tables connect, so it is not longer than these
are many, and one more. -/
theorem Finalized.course_ends {s : Session} (h : s.Finalized) {depth : Nat} (hdepth : s.space.ends.size < depth)
    (primary hypercube : QName) (role : String) :
    (∃ paths, (Course.resolveHypercube s.space depth primary hypercube role).outcome { trees := s.trees } =
        some ((s.resolveHypercube primary hypercube role).1,
          ⟨(s.resolveHypercube primary hypercube role).2.trees, paths⟩) ∧
      ∀ path ∈ paths, s.space.IsPath primary path ∧ path.length ≤ s.space.ends.size + 1) ∧
    ∃ paths, (Course.hypercubesFor s.space depth primary role).outcome { trees := s.trees } =
        some ((s.hypercubesFor primary role).1, ⟨(s.hypercubesFor primary role).2.trees, paths⟩) ∧
      ∀ path ∈ paths, s.space.IsPath primary path ∧ path.length ≤ s.space.ends.size + 1 :=
  have hs := h.settled.gathered
  ⟨outcome_of_comesTo (Space.comesTo_resolveHypercube hdepth hs primary hypercube role),
    outcome_of_comesTo (Space.comesTo_hypercubesFor hdepth hs primary role)⟩

/-- Each of two roles leads into the other, and members stand above each other, which they may. -/
def spiral : Session :=
  let s := Sample.session [Sample.item "o", Sample.item "p", Sample.hypercube "h", Sample.dimension "d",
      Sample.item "m", Sample.item "n"] [
    Sample.link "r" [Sample.arc .domainMember "o" "p" none, Sample.arc .domainMember "p" "o" none,
      Sample.arc .all "o" "h" (some "q")],
    Sample.link "q" [Sample.arc .hypercubeDimension "h" "d" (some "s"), Sample.arc .domainMember "m" "n" (some "s")],
    Sample.link "s" [Sample.arc .dimensionDomain "d" "m" (some "q"), Sample.arc .domainMember "n" "m" (some "q")]]
  let arcrole : ArcroleType :=
    { uri := Arcrole.domainMember.uri, usedOn := ∅, cycles := .any, document := "schema.xsd" }
  .finalize { s with dts := { s.dts with registry := { arcroles := .ofList [(arcrole.uri, arcrole)] } } }

set_option maxRecDepth 20000 in
theorem size_ends_spiral : spiral.space.ends.size = 6 := by
  unfold spiral
  cbv

theorem course_ends_spiral :
    spiral.Finalized ∧ spiral.space.cyclesOf .domainMember = .any ∧ spiral.space.ends.size < 7 ∧ ∃ paths,
      (Course.resolveHypercube spiral.space 7 (Sample.name "p") (Sample.name "h") "r").outcome
          { trees := spiral.trees } =
        some ((spiral.resolveHypercube (Sample.name "p") (Sample.name "h") "r").1,
          ⟨(spiral.resolveHypercube (Sample.name "p") (Sample.name "h") "r").2.trees, paths⟩) ∧
      ∀ path ∈ paths, spiral.space.IsPath (Sample.name "p") path ∧ path.length ≤ 7 := by
  have hfinalized : spiral.Finalized := .finalize _
  have hcycles : spiral.space.cyclesOf .domainMember = .any := by decide +kernel
  have hdepth : spiral.space.ends.size < 7 := by
    rw [size_ends_spiral]
    decide
  obtain ⟨paths, houtcome, hpaths⟩ := (hfinalized.course_ends hdepth (Sample.name "p") (Sample.name "h") "r").1
  rw [size_ends_spiral] at hpaths
  exact ⟨hfinalized, hcycles, hdepth, paths, houtcome, hpaths⟩

end Session

end TaxonomySet
