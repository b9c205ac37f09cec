import Mathlib
import TaxonomySet.Proofs.Dimension.Findings

namespace TaxonomySet

namespace Dimension.Space

variable {s : Space} {t : Table}

/-- Where the first links of all sources lead to hypercubes, the hypercubes of a concept are found if
the way up from it does not fail. -/
theorem exists_findHypercubes {role : String} (ht : s.tables.get? role = some t) (hcurrent : t.Current)
    (hlinks : ∀ e ∈ t.effective, e.arcrole.isHasHypercube = true →
      ∃ made, s.findHypercube e.source e.target role = .ok made)
    {primary : QName} {es : List Edge} (hes : s.hasHypercubeEdges t primary = .ok es) :
    ∃ found, s.findHypercubes primary role = .ok found := by
  unfold findHypercubes
  rw [ht]
  simp only [hes]
  refine Outcome.exists_mapM_eq_ok.2 fun e he => ?_
  have hfirst : t.IsFirstLink e :=
    find?_own_of_hasHypercubeEdges hcurrent hes ((mem_eraseDupsBy_iff Edge.target).1 he)
  obtain ⟨heffective, harcrole⟩ := hfirst.mem hcurrent
  obtain ⟨made, hmade⟩ := hlinks e heffective harcrole
  rw [findHypercube_isFirstLink ht hfirst] at hmade
  obtain ⟨-, -, hmade⟩ := Outcome.bind_eq_ok.1 hmade
  obtain ⟨tree, htree, -⟩ := Outcome.map_eq_ok.1 hmade
  exact ⟨_, Outcome.map_eq_ok.2 ⟨tree, htree, rfl⟩⟩

end Dimension.Space

open Dimension

namespace Session

/-- A clean validation has resolved every link to a hypercube. -/
theorem Settled.resolved_of_validate {s : Session} (h : s.Settled) (hclean : (s.validate {}).1 = .ok [])
    {role : String} {t : Table} (ht : s.space.tables.get? role = some t) :
    ∀ e ∈ t.effective, e.arcrole.isHasHypercube = true →
      ∃ made, s.space.findHypercube e.source e.target role = .ok made := by
  rw [h.validate_eq_ok rfl rfl] at hclean
  obtain ⟨-, hnil⟩ := List.append_eq_nil_iff.1 (Except.ok.inj hclean)
  intro e he harcrole
  obtain ⟨d, hfirst, hsource, htarget⟩ := Table.exists_isFirstLink (h.wellFormed.current ht) he harcrole
  rw [← hsource, ← htarget]
  cases hrun : s.space.findHypercube d.source d.target role with
  | ok made => exact ⟨made, rfl⟩
  | error f =>
    have hfault := h.mem_faults.2 ⟨role, t, d, ht, hfirst, (Space.findHypercube_eq_error_iff ht hfirst).1 hrun⟩
    rw [hnil] at hfault
    cases hfault

/-- After a clean validation the hypercubes of every concept are found in every role, but for the
concepts from which the way up leads to a cycle that is ruled out. -/
theorem Finalized.hypercubesFor_of_validate {s : Session} (h : s.Finalized)
    (hclean : (s.validate {}).1 = .ok []) (primary : QName) (role : String) :
    (¬ s.BlockedAbove primary role → ∃ found, (s.hypercubesFor primary role).1 = .ok found) ∧
      (s.BlockedAbove primary role →
        ∃ a, (s.hypercubesFor primary role).1 = .error (.cycle a .domainMember role)) := by
  have hs := h.settled.wellFormed
  rw [(h.settled.hypercubesFor primary role).1]
  cases ht : s.space.tables.get? role with
  | none =>
    refine ⟨fun _ => ⟨[], by simp [Space.findHypercubes, ht]⟩, ?_⟩
    rintro ⟨t, ht', -⟩
    rw [ht] at ht'
    cases ht'
  | some t =>
    have hcurrent := hs.current ht
    cases hes : s.space.hasHypercubeEdges t primary with
    | ok es =>
      refine ⟨fun _ => Space.exists_findHypercubes ht hcurrent (h.settled.resolved_of_validate hclean ht) hes,
        ?_⟩
      rintro ⟨t', ht', hblocked⟩
      obtain rfl : t = t' := Option.some.inj (ht.symm.trans ht')
      exact absurd hblocked ((Space.exists_hasHypercubeEdges_eq_ok hcurrent (hs.source_mem ht)).1 ⟨es, hes⟩)
    | error f =>
      obtain ⟨hforbids, ⟨a, rfl⟩, hcycle⟩ :=
        Space.hasHypercubeEdges_of_error hcurrent (hs.source_mem ht) hes
      refine ⟨fun hnot => absurd ⟨t, ht, hforbids, hcycle⟩ hnot, fun _ => ⟨a, ?_⟩⟩
      unfold Space.findHypercubes
      rw [ht]
      simp only [hes, hs.role_eq ht]
      rfl

/-- The hypercube of a concept hangs on the one above it. -/
def inheriting : Session :=
  Sample.session [Sample.item "p", Sample.item "q", Sample.hypercube "h", Sample.dimension "d", Sample.item "m"] [
    Sample.link "r" [Sample.arc .domainMember "q" "p" none, Sample.arc .all "q" "h" none,
      Sample.arc .hypercubeDimension "h" "d" none, Sample.arc .dimensionDomain "d" "m" none]]

set_option maxRecDepth 20000 in
theorem inheriting_clean : (inheriting.validate {}).1 = .ok [] := by
  unfold inheriting
  cbv

theorem hypercubesFor_inheriting :
    inheriting.Finalized ∧ (inheriting.validate {}).1 = .ok [] ∧
      (¬ inheriting.BlockedAbove (Sample.name "p") "r" →
        ∃ found, (inheriting.hypercubesFor (Sample.name "p") "r").1 = .ok found) ∧
      (inheriting.BlockedAbove (Sample.name "p") "r" →
        ∃ a, (inheriting.hypercubesFor (Sample.name "p") "r").1 = .error (.cycle a .domainMember "r")) :=
  ⟨.finalize _, inheriting_clean,
    Finalized.hypercubesFor_of_validate (.finalize _) inheriting_clean (Sample.name "p") "r"⟩

/-- Two concepts above each other. -/
def circling : Session :=
  Sample.session [Sample.item "p", Sample.item "q"] [
    Sample.link "r" [Sample.arc .domainMember "p" "q" none, Sample.arc .domainMember "q" "p" none]]

set_option maxRecDepth 20000 in
theorem circling_clean : (circling.validate {}).1 = .ok [] := by
  unfold circling
  cbv

set_option maxRecDepth 20000 in
theorem circling_tables :
    circling.space.tables.get? "r" = some (Sample.table circling "r") ∧
      (circling.space.cyclesOf .domainMember).allowsDirected = false ∧
      (Sample.table circling "r").effective =
        [Sample.edge .domainMember "p" "q" none, Sample.edge .domainMember "q" "p" none] := by
  refine ⟨Sample.get?_tables (by decide +kernel), by decide +kernel, ?_⟩
  unfold circling
  cbv

theorem not_forall_hypercubesFor_ok :
    ¬ ∀ s : Session, s.Finalized → (s.validate {}).1 = .ok [] →
      ∀ primary role, ∃ found, (s.hypercubesFor primary role).1 = .ok found := by
  intro hall
  have hfinalized : circling.Finalized := .finalize _
  have hs := hfinalized.settled.wellFormed
  obtain ⟨htable, hforbids, heffective⟩ := circling_tables
  obtain ⟨found, hfound⟩ := hall circling hfinalized circling_clean (Sample.name "p") "r"
  rw [(hfinalized.settled.hypercubesFor _ _).1] at hfound
  unfold Space.findHypercubes at hfound
  rw [htable] at hfound
  obtain ⟨es, hes, -⟩ := Outcome.bind_eq_ok.1 hfound
  have hup : (Sample.table circling "r").Above (Sample.name "p") (Sample.name "q") :=
    ⟨Sample.edge .domainMember "q" "p" none, by simp [heffective], rfl, rfl, rfl⟩
  have hback : (Sample.table circling "r").Above (Sample.name "q") (Sample.name "p") :=
    ⟨Sample.edge .domainMember "p" "q" none, by simp [heffective], rfl, rfl, rfl⟩
  exact (Space.exists_hasHypercubeEdges_eq_ok (hs.current htable) (hs.source_mem htable)).1 ⟨es, hes⟩
    ⟨hforbids, Sample.name "p", .refl, .tail (.single hup) hback⟩

end Session

end TaxonomySet
