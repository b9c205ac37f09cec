import TaxonomySet.Proofs.Dimension.Findings

namespace TaxonomySet

namespace Dimension.Space

variable {s : Space} {t : Table} {primary : QName} {role : String}

theorem hypercube_of_edgeHypercube {e : Edge} {x : ResolvedHypercube} (h : s.edgeHypercube t primary e = .ok x) :
    x.hypercube = e.target := by
  obtain ⟨tree, -, rfl⟩ := Outcome.map_eq_ok.1 h
  rfl

/-- The hypercubes of a list of edges are the targets of the edges. -/
theorem map_hypercube_of_mapM {es : List Edge} {found : List ResolvedHypercube}
    (h : es.mapM (s.edgeHypercube t primary) = .ok found) : found.map (·.hypercube) = es.map (·.target) := by
  induction Outcome.mapM_eq_ok.1 h with
  | nil => rfl
  | cons hx _ ih =>
    rw [List.map_cons, List.map_cons, hypercube_of_edgeHypercube hx]
    exact congrArg _ (ih (Outcome.mapM_eq_ok.2 ‹_›))

theorem findHypercube_of_unlinked (ht : s.tables.get? role = some t) {es : List Edge}
    (hes : s.hasHypercubeEdges t primary = .ok es) {hypercube : QName}
    (hnone : es.find? (·.target == hypercube) = none) :
    s.findHypercube primary hypercube role = .error (.notLinked primary hypercube role) := by
  unfold findHypercube
  rw [ht]
  refine Outcome.bind_eq_error.2 (.inr ⟨es, hes, ?_⟩)
  rw [hnone]

/-- If there is a list of hypercubes, each stands in it once, and the query for it answers with its entry. -/
theorem findHypercube_of_findHypercubes {found : List ResolvedHypercube}
    (h : s.findHypercubes primary role = .ok found) : (found.map (·.hypercube)).Nodup ∧ ∀ hypercube,
      s.findHypercube primary hypercube role = match found.find? (·.hypercube == hypercube) with
        | some x => .ok x
        | none => .error (.notLinked primary hypercube role) := by
  unfold findHypercubes at h
  cases ht : s.tables.get? role with
  | none =>
    rw [ht] at h
    cases h
    refine ⟨List.nodup_nil, fun hypercube => ?_⟩
    unfold findHypercube
    rw [ht]
    rfl
  | some t =>
    rw [ht] at h
    obtain ⟨es, hes, hfound⟩ := Outcome.bind_eq_ok.1 h
    have hnames := map_hypercube_of_mapM hfound
    obtain ⟨hsub, hnodup⟩ := eraseDupsBy_sublist_nodup Edge.target es
    refine ⟨hnames ▸ hnodup, fun hypercube => ?_⟩
    cases hfirst : es.find? (·.target == hypercube) with
    | none =>
      -- no edge leads to the hypercube, so none that is left does
      have hnone : found.find? (·.hypercube == hypercube) = none := by
        refine List.find?_eq_none.2 fun x hx heq => ?_
        have hmem : x.hypercube ∈ found.map (·.hypercube) := List.mem_map_of_mem hx
        rw [hnames] at hmem
        obtain ⟨e, he, htarget⟩ := List.mem_map.1 hmem
        exact List.find?_eq_none.1 hfirst e (hsub.subset he) (by rwa [htarget])
      rw [hnone]
      exact findHypercube_of_unlinked ht hes hfirst
    | some e =>
      have htarget : e.target = hypercube := by simpa using List.find?_some hfirst
      have hkept := (mem_eraseDupsBy_iff Edge.target).2 (htarget ▸ hfirst)
      obtain ⟨x, hx, hmade⟩ := Outcome.exists_of_mem_left hfound hkept
      have hentry : found.find? (·.hypercube == hypercube) = some x :=
        (find?_eq_some_iff_of_nodup (hnames ▸ hnodup)).2 ⟨hx, (hypercube_of_edgeHypercube hmade).trans htarget⟩
      rw [hentry, findHypercube_of_ok ht hes hfirst]
      exact hmade

/-- If there is no list of hypercubes, the way up from the primary item fails, and with it the query for each
hypercube; or a first edge does, and with it the query for its target. -/
theorem exists_findHypercube_of_error {f : DimensionFault} (h : s.findHypercubes primary role = .error f) :
    ∃ hypercube, s.findHypercube primary hypercube role = .error f := by
  unfold findHypercubes at h
  cases ht : s.tables.get? role with
  | none =>
    rw [ht] at h
    cases h
  | some t =>
    rw [ht] at h
    rcases Outcome.bind_eq_error.1 h with hes | ⟨es, hes, hfound⟩
    · exact ⟨primary, findHypercube_of_error ht hes primary⟩
    · obtain ⟨e, he, hfails⟩ := Outcome.mapM_eq_error hfound
      exact ⟨e.target, (findHypercube_of_ok ht hes ((mem_eraseDupsBy_iff Edge.target).1 he)).trans hfails⟩

end Dimension.Space

open Dimension

namespace Session

variable {s s' : Session}

/-- Settled sessions with the same contents have the same tables. -/
theorem Settled.space_eq (h : s.Settled) (h' : s'.Settled) (hdts : s'.dts = s.dts) : s'.space = s.space :=
  space_congr hdts (by rw [h'.index_eq, h.index_eq, hdts])

/-- The two queries agree, in whatever order and with whatever other questions between them the same contents are
asked. If there is a list of the hypercubes of a primary item, each hypercube stands in it at most once, and the query
for any one answers with its entry, or that it is not linked if there is none. If there is no list, the query for
some hypercube fails with the same error. -/
theorem Finalized.hypercubesFor_agrees (h : s.Finalized) (h' : s'.Finalized) (hdts : s'.dts = s.dts)
    (primary : QName) (role : String) :
    (∀ found, (s.hypercubesFor primary role).1 = .ok found → (found.map (·.hypercube)).Nodup ∧ ∀ hypercube,
      (s'.resolveHypercube primary hypercube role).1 = match found.find? (·.hypercube == hypercube) with
        | some x => .ok x
        | none => .error (.notLinked primary hypercube role)) ∧
    ∀ f, (s.hypercubesFor primary role).1 = .error f →
      ∃ hypercube, (s'.resolveHypercube primary hypercube role).1 = .error f := by
  have hlist := (h.settled.hypercubesFor primary role).1
  have hsingle (hypercube : QName) : (s'.resolveHypercube primary hypercube role).1 =
      s.space.findHypercube primary hypercube role := by
    rw [(h'.settled.resolveHypercube primary hypercube role).1, h.settled.space_eq h'.settled hdts]
  simp only [hlist, hsingle]
  exact ⟨fun found => Space.findHypercube_of_findHypercubes, fun f => Space.exists_findHypercube_of_error⟩

set_option maxRecDepth 20000 in
theorem names_doubled : ((doubled none).hypercubesFor (Sample.name "p") "r").1.toOption.map
    (·.map (·.hypercube)) = some [Sample.name "h"] := by
  unfold doubled
  cbv

theorem exists_hypercubesFor_doubled :
    ∃ x, ((doubled none).hypercubesFor (Sample.name "p") "r").1 = .ok [x] ∧ x.hypercube = Sample.name "h" := by
  have hnames := names_doubled
  cases hrun : ((doubled none).hypercubesFor (Sample.name "p") "r").1 with
  | error f =>
    rw [hrun] at hnames
    cases hnames
  | ok found =>
    rw [hrun] at hnames
    obtain ⟨x, rfl, hx⟩ := List.map_eq_singleton_iff.1 (Option.some_inj.1 hnames)
    exact ⟨x, rfl, hx⟩

/-- Two links to one hypercube make one entry, which is also what the query for the hypercube answers afterwards. -/
theorem hypercubesFor_agrees_doubled :
    let s := doubled none
    let s' := (s.hypercubesFor (Sample.name "p") "r").2
    s.Finalized ∧ s'.Finalized ∧ s'.dts = s.dts ∧ ∃ x, (s.hypercubesFor (Sample.name "p") "r").1 = .ok [x] ∧
      (s'.resolveHypercube (Sample.name "p") (Sample.name "h") "r").1 = .ok x := by
  intro s s'
  have hfinalized : s.Finalized := .finalize _
  have hdts : s'.dts = s.dts := (query_dts s _).1
  obtain ⟨x, hlist, hname⟩ := exists_hypercubesFor_doubled
  have hagrees := Finalized.hypercubesFor_agrees hfinalized (hfinalized.hypercubesFor _ _) hdts (Sample.name "p") "r"
  refine ⟨hfinalized, hfinalized.hypercubesFor _ _, hdts, x, hlist, ?_⟩
  rw [(hagrees.1 [x] hlist).2 (Sample.name "h"), List.find?_cons_of_pos (by simpa using hname)]

end Session

end TaxonomySet
