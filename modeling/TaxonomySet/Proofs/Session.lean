import TaxonomySet.Proofs.Dimension.Answers
import TaxonomySet.Session

namespace TaxonomySet

open Dimension

/-- What has been found after a question: a fault in its answer is added, unless it is there. -/
def Finding.gather {α : Type} (found : List Finding) : Except DimensionFault α → List Finding
  | .ok _ => found
  | .error f => if .dimension f ∈ found then found else found ++ [.dimension f]

namespace Session

/-- A session whose contents have not changed since it was derived: any questions may have been asked
and any diagnostics may have been reported or cleared. -/
inductive Finalized : Session → Prop
  | finalize (s : Session) : Finalized s.finalize
  | resolveHypercube {s : Session} (h : Finalized s) (primary hypercube : QName) (role : String) :
    Finalized (s.resolveHypercube primary hypercube role).2
  | hypercubesFor {s : Session} (h : Finalized s) (primary : QName) (role : String) :
    Finalized (s.hypercubesFor primary role).2
  | describe {s : Session} (h : Finalized s) (k : LabelKey) : Finalized (s.describe k).2
  | validate {s : Session} (h : Finalized s) (checks : Conformance.Checks) :
    Finalized (s.validate checks).2
  | journal {s : Session} (h : Finalized s) (j : Journal) : Finalized { s with journal := j }

/-- What a session must hold for its answers to be those of its tables. -/
structure Settled (s : Session) : Prop where
  index_eq : s.index = s.dts.index.value
  keeps : s.space.Keeps s.trees

theorem Settled.wellFormed {s : Session} (h : s.Settled) : s.space.WellFormed := by
  have hof : (Space.ofTables (collect s.dts.resolve s.dts.links) (Dts.isTyped s.dts.classes)
      s.dts.cyclesOf).WellFormed := Space.wellFormed_ofTables fun _ _ => of_get?_collect
  have hspace : s.space = Space.ofTables (collect s.dts.resolve s.dts.links)
      (Dts.isTyped s.dts.classes) s.dts.cyclesOf := by
    unfold space
    rw [h.index_eq]
    rfl
  rwa [hspace]

theorem space_congr {s s' : Session} (hdts : s'.dts = s.dts) (hindex : s'.index = s.index) :
    s'.space = s.space := by
  unfold space
  rw [hdts, hindex]

/-- What is left when only the trees and the journal of a session change. -/
theorem Settled.of_trees {s s' : Session} (h : s.Settled) (hdts : s'.dts = s.dts)
    (hindex : s'.index = s.index) (hkeeps : s.space.Keeps s'.trees) : s'.Settled := by
  refine ⟨by rw [hindex, hdts, h.index_eq], ?_⟩
  rwa [space_congr hdts hindex]

theorem query_dts {α : Type} (s : Session) (q : Query α) :
    (s.query q).2.dts = s.dts ∧ (s.query q).2.index = s.index ∧
      (s.query q).2.trees = (q.answer s.trees).2 := by
  unfold query
  rcases hrun : q.answer s.trees with ⟨fault | a, trees⟩
  · by_cases hcycle : fault.isCycle
    · simp [report, hcycle]
    · simp [hcycle]
  · exact ⟨rfl, rfl, rfl⟩

theorem query_fst {α : Type} (s : Session) (q : Query α) : (s.query q).1 = (q.answer s.trees).1 := by
  unfold query
  rcases q.answer s.trees with ⟨fault | a, trees⟩ <;> rfl

theorem Settled.query {α : Type} {s : Session} (h : s.Settled) {q : Query α}
    {a : Except DimensionFault α} (hq : q.Gives s.space a) :
    (s.query q).1 = a ∧ (s.query q).2.Settled := by
  obtain ⟨hanswer, hkeeps⟩ := hq s.trees h.keeps
  obtain ⟨hdts, hindex, htrees⟩ := query_dts s q
  exact ⟨(query_fst s q).trans hanswer, h.of_trees hdts hindex (htrees ▸ hkeeps)⟩

theorem Settled.resolveHypercube {s : Session} (h : s.Settled) (primary hypercube : QName)
    (role : String) :
    (s.resolveHypercube primary hypercube role).1 = s.space.findHypercube primary hypercube role ∧
      (s.resolveHypercube primary hypercube role).2.Settled :=
  h.query (Space.gives_resolveHypercube h.wellFormed primary hypercube role)

theorem Settled.hypercubesFor {s : Session} (h : s.Settled) (primary : QName) (role : String) :
    (s.hypercubesFor primary role).1 = s.space.findHypercubes primary role ∧
      (s.hypercubesFor primary role).2.Settled :=
  h.query (Space.gives_hypercubesFor h.wellFormed primary role)

theorem resolveHypercube_space (s : Session) (primary hypercube : QName) (role : String) :
    (s.resolveHypercube primary hypercube role).2.space = s.space := by
  obtain ⟨hdts, hindex, -⟩ := query_dts s (s.space.resolveHypercube primary hypercube role)
  exact space_congr hdts hindex

theorem Settled.report {s : Session} (h : s.Settled) (ds : List Diagnostic) : (s.report ds).Settled :=
  h.of_trees rfl rfl h.keeps

theorem describe_dts (s : Session) (k : LabelKey) :
    (s.describe k).2.dts = s.dts ∧ (s.describe k).2.index = s.index ∧
      (s.describe k).2.trees = s.trees := by
  unfold describe
  rcases s.labels.look k with ⟨found | found, labels⟩
  · rcases labels.store k (Label.describe s.index.network k) with ⟨found, labels⟩
    exact ⟨rfl, rfl, rfl⟩
  · exact ⟨rfl, rfl, rfl⟩

theorem checkResolution_cons (s : Session) (found : List Finding) (l : QName × QName × String)
    (links : List (QName × QName × String)) :
    s.checkResolution found (l :: links) =
      (s.resolveHypercube l.1 l.2.1 l.2.2).2.checkResolution
        (Finding.gather found (s.resolveHypercube l.1 l.2.1 l.2.2).1) links := by
  obtain ⟨primary, hypercube, role⟩ := l
  rw [checkResolution]
  rcases s.resolveHypercube primary hypercube role with ⟨fault | made, s'⟩ <;> rfl

theorem Settled.checkResolution {s : Session} (h : s.Settled) (found : List Finding)
    (links : List (QName × QName × String)) : (s.checkResolution found links).2.Settled := by
  induction links generalizing s found with
  | nil => exact h
  | cons l links ih =>
    rw [checkResolution_cons]
    exact ih (h.resolveHypercube l.1 l.2.1 l.2.2).2 _

/-- What a validation has found by resolving hypercubes, and the session by then. -/
def checked (s : Session) (checks : Conformance.Checks) : List Finding × Session :=
  let reported := s.report ((Conformance.standing checks s.dts s.index).map Finding.diagnostic)
  if checks.dimensions then reported.checkResolution [] (Conformance.hypercubeLinks s.index.tables.values)
  else ([], reported)

/-- A strict check does not change what is reported, it only answers differently. -/
theorem validate_eq (s : Session) (checks : Conformance.Checks) :
    s.validate checks =
      (let findings := Conformance.standing checks s.dts s.index ++ (s.checked checks).1
        if checks.strict && !findings.isEmpty then .error (.findings findings.length) else .ok findings,
        (s.checked checks).2.report (((s.checked checks).1.filter fun f => !f.isCycle).map Finding.diagnostic)) := by
  unfold validate checked
  exact (apply_ite (fun answer : Except Fault (List Finding) => (answer, _)) _ _ _).symm

theorem Settled.checked {s : Session} (h : s.Settled) (checks : Conformance.Checks) :
    (s.checked checks).2.Settled := by
  have hreported := h.report ((Conformance.standing checks s.dts s.index).map Finding.diagnostic)
  unfold Session.checked
  dsimp only
  split
  · exact hreported.checkResolution [] _
  · exact hreported

theorem Settled.validate {s : Session} (h : s.Settled) (checks : Conformance.Checks) :
    (s.validate checks).2.Settled := by
  rw [validate_eq]
  exact (h.checked checks).report _

theorem Finalized.settled {s : Session} (h : s.Finalized) : s.Settled := by
  induction h with
  | finalize s => exact ⟨rfl, Space.keeps_empty _⟩
  | resolveHypercube _ primary hypercube role ih => exact (ih.resolveHypercube primary hypercube role).2
  | hypercubesFor _ primary role ih => exact (ih.hypercubesFor primary role).2
  | @describe s _ k ih =>
    obtain ⟨hdts, hindex, htrees⟩ := describe_dts s k
    exact ih.of_trees hdts hindex (htrees ▸ ih.keeps)
  | validate _ checks ih => exact ih.validate checks
  | journal _ j ih => exact ih.of_trees rfl rfl ih.keeps

end Session

end TaxonomySet
