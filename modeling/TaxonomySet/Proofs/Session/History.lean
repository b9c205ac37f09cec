import TaxonomySet.Proofs.Session

namespace TaxonomySet

namespace Memo

variable {κ α : Type} [BEq κ] {m : Memo κ α} {f : κ → α}

/-- Whether every value that is kept is the one that a function gives. -/
def Holds (m : Memo κ α) (f : κ → α) : Prop := ∀ k a, m.find? k = some a → a = f k

theorem holds_empty (f : κ → α) : Holds {} f := fun _ _ h => by cases h

theorem Holds.look (h : m.Holds f) (k : κ) : (m.look k).2.Holds f := by
  intro j a hfind
  rw [find?_look] at hfind
  exact h j a hfind

theorem Holds.store [LawfulBEq κ] (h : m.Holds f) (k : κ) :
    (m.store k (f k)).1 = f k ∧ (m.store k (f k)).2.Holds f := by
  rw [store_fst]
  constructor
  · cases hold : m.find? k with
    | some old => exact h k old hold
    | none => rfl
  · intro j a hfind
    rw [find?_store, Option.or_eq_some_iff] at hfind
    rcases hfind with hkept | ⟨-, hnew⟩
    · exact h j a hkept
    · obtain ⟨hj, ha⟩ := Option.ite_none_right_eq_some.1 hnew
      rw [beq_iff_eq.1 hj, Option.some.inj ha]

end Memo

open Dimension

/-- The faults in the way of links to hypercubes, behind those that were found before, each once. -/
def Dimension.Space.faults (s : Space) (found : List Finding) : List (QName × QName × String) → List Finding
  | [] => found
  | (primary, hypercube, role) :: rest =>
    match s.findHypercube primary hypercube role with
    | .ok _ => s.faults found rest
    | .error f => s.faults (if .dimension f ∈ found then found else found ++ [.dimension f]) rest

theorem Dimension.Space.faults_cons (s : Space) (found : List Finding) (l : QName × QName × String)
    (links : List (QName × QName × String)) :
    s.faults found (l :: links) = s.faults (Finding.gather found (s.findHypercube l.1 l.2.1 l.2.2)) links := by
  obtain ⟨primary, hypercube, role⟩ := l
  rw [faults]
  cases s.findHypercube primary hypercube role <;> rfl

namespace Session

/-- A question to a session. -/
inductive Call where
  | resolveHypercube (primary hypercube : QName) (role : String)
  | hypercubesFor (primary : QName) (role : String)
  | describe (k : LabelKey)
  | preferredLabel (parent child : QName) (role : String)
  | validate (checks : Conformance.Checks)

/-- What a question is answered with. -/
abbrev Call.Answer : Call → Type
  | resolveHypercube .. => Except DimensionFault ResolvedHypercube
  | hypercubesFor .. => Except DimensionFault (List ResolvedHypercube)
  | describe _ => Option String
  | preferredLabel .. => Option String
  | validate _ => Except Fault (List Finding)

/-- Asks a question. -/
def ask (s : Session) : (c : Call) → c.Answer × Session
  | .resolveHypercube primary hypercube role => s.resolveHypercube primary hypercube role
  | .hypercubesFor primary role => s.hypercubesFor primary role
  | .describe k => s.describe k
  | .preferredLabel parent child role => (Label.preferred? s.index.network parent child role, s)
  | .validate checks => s.validate checks

/-- The session after questions. -/
def after (s : Session) (calls : List Call) : Session := calls.foldl (fun s c => (s.ask c).2) s

/-- What a validation finds when every hypercube is made anew. -/
def findings (s : Session) (checks : Conformance.Checks) : Except Fault (List Finding) :=
  let findings := Conformance.standing checks s.dts s.index ++
    if checks.dimensions then s.space.faults [] (Conformance.hypercubeLinks s.index.tables.values) else []
  if checks.strict && !findings.isEmpty then .error (.findings findings.length) else .ok findings

/-- The findings of a validation that come from resolving hypercubes. -/
def resolving (s : Session) (checks : Conformance.Checks) : List Finding :=
  if checks.dimensions then s.space.faults [] (Conformance.hypercubeLinks s.index.tables.values) else []

/-- The answer to a question when nothing is kept. -/
def plain (s : Session) : (c : Call) → c.Answer
  | .resolveHypercube primary hypercube role => s.space.findHypercube primary hypercube role
  | .hypercubesFor primary role => s.space.findHypercubes primary role
  | .describe k => Label.describe s.index.network k
  | .preferredLabel parent child role => Label.preferred? s.index.network parent child role
  | .validate checks => s.findings checks

theorem plain_congr {s s' : Session} (hdts : s'.dts = s.dts) (hindex : s'.index = s.index) (c : Call) :
    s'.plain c = s.plain c := by
  cases c <;> simp only [plain, findings, space_congr hdts hindex, hdts, hindex]

/-- Two sessions that differ at most in their trees and their journals. -/
structure SameButTrees (s s' : Session) : Prop where
  dts : s'.dts = s.dts
  index : s'.index = s.index
  labels : s'.labels = s.labels

theorem SameButTrees.trans {s s' s'' : Session} (h : s.SameButTrees s') (h' : s'.SameButTrees s'') :
    s.SameButTrees s'' :=
  ⟨h'.dts.trans h.dts, h'.index.trans h.index, h'.labels.trans h.labels⟩

theorem sameButTrees_report (s : Session) (ds : List Diagnostic) : s.SameButTrees (s.report ds) := ⟨rfl, rfl, rfl⟩

theorem sameButTrees_query {α : Type} (s : Session) (q : Query α) : s.SameButTrees (s.query q).2 := by
  unfold query
  rcases q.answer s.trees with ⟨fault | a, trees⟩
  · by_cases hcycle : fault.isCycle
    · simp only [hcycle, if_true]
      exact ⟨rfl, rfl, rfl⟩
    · simp only [hcycle]
      exact ⟨rfl, rfl, rfl⟩
  · exact ⟨rfl, rfl, rfl⟩

theorem sameButTrees_checkResolution (s : Session) (found : List Finding) (links : List (QName × QName × String)) :
    s.SameButTrees (s.checkResolution found links).2 := by
  induction links generalizing s found with
  | nil => exact ⟨rfl, rfl, rfl⟩
  | cons l links ih =>
    rw [checkResolution_cons]
    exact (sameButTrees_query s (s.space.resolveHypercube l.1 l.2.1 l.2.2)).trans (ih _ _)

theorem sameButTrees_checked (s : Session) (checks : Conformance.Checks) : s.SameButTrees (s.checked checks).2 := by
  have hreported := sameButTrees_report s ((Conformance.standing checks s.dts s.index).map Finding.diagnostic)
  unfold checked
  dsimp only
  split
  · exact hreported.trans (sameButTrees_checkResolution _ _ _)
  · exact hreported

theorem sameButTrees_validate (s : Session) (checks : Conformance.Checks) :
    s.SameButTrees (s.validate checks).2 := by
  rw [validate_eq]
  exact (sameButTrees_checked s checks).trans (sameButTrees_report _ _)

/-- What resolving links to hypercubes finds does not depend on the trees that are kept. -/
theorem Settled.checkResolution_fst {s : Session} (h : s.Settled) (found : List Finding)
    (links : List (QName × QName × String)) : (s.checkResolution found links).1 = s.space.faults found links := by
  induction links generalizing s found with
  | nil => rfl
  | cons l links ih =>
    obtain ⟨hanswer, hnext⟩ := h.resolveHypercube l.1 l.2.1 l.2.2
    rw [checkResolution_cons, ih hnext, resolveHypercube_space, hanswer, Space.faults_cons]

theorem Settled.checked_fst {s : Session} (h : s.Settled) (checks : Conformance.Checks) :
    (s.checked checks).1 = s.resolving checks := by
  have hreported := h.report ((Conformance.standing checks s.dts s.index).map Finding.diagnostic)
  unfold Session.checked resolving
  dsimp only
  split
  · exact hreported.checkResolution_fst [] _
  · rfl

theorem Settled.validate_fst {s : Session} (h : s.Settled) (checks : Conformance.Checks) :
    (s.validate checks).1 = s.findings checks := by
  rw [validate_eq, h.checked_fst]
  rfl

/-- A session whose kept trees and labels are those that would be made again. A tree is kept under what it depends on,
and so is a label, even if there is none; faults are not kept. -/
structure Recalls (s : Session) : Prop where
  settled : s.Settled
  labels : s.labels.Holds (Label.describe s.index.network)

theorem recalls_finalize (s : Session) : s.finalize.Recalls :=
  ⟨(Finalized.finalize s).settled, Memo.holds_empty _⟩

theorem Recalls.of_sameButTrees {s s' : Session} (h : s.Recalls) (hsame : s.SameButTrees s') (hsettled : s'.Settled) :
    s'.Recalls := by
  refine ⟨hsettled, ?_⟩
  rw [hsame.labels, hsame.index]
  exact h.labels

theorem Recalls.describe {s : Session} (h : s.Recalls) (k : LabelKey) :
    (s.describe k).1 = Label.describe s.index.network k ∧ (s.describe k).2.Recalls := by
  obtain ⟨hdts, hindex, htrees⟩ := describe_dts s k
  have hsettled : (s.describe k).2.Settled := h.settled.of_trees hdts hindex (htrees ▸ h.settled.keeps)
  have hfind := s.labels.look_fst k
  have hlooked := h.labels.look k
  suffices hlabels : (s.describe k).1 = Label.describe s.index.network k ∧
      (s.describe k).2.labels.Holds (Label.describe s.index.network) from
    ⟨hlabels.1, hsettled, hindex ▸ hlabels.2⟩
  unfold Session.describe
  rcases hrun : s.labels.look k with ⟨found | found, labels⟩
  · rw [hrun] at hlooked
    exact hlooked.store k
  · rw [hrun] at hfind hlooked
    exact ⟨h.labels k found hfind.symm, hlooked⟩

/-- One question: it is answered as if nothing was kept, and what is kept afterwards would be made again. -/
theorem Recalls.ask {s : Session} (h : s.Recalls) (c : Call) :
    (s.ask c).1 = s.plain c ∧ (s.ask c).2.Recalls ∧ (s.ask c).2.dts = s.dts ∧ (s.ask c).2.index = s.index := by
  cases c with
  | resolveHypercube primary hypercube role =>
    obtain ⟨hanswer, hsettled⟩ := h.settled.resolveHypercube primary hypercube role
    have hsame := sameButTrees_query s (s.space.resolveHypercube primary hypercube role)
    exact ⟨hanswer, h.of_sameButTrees hsame hsettled, hsame.dts, hsame.index⟩
  | hypercubesFor primary role =>
    obtain ⟨hanswer, hsettled⟩ := h.settled.hypercubesFor primary role
    have hsame := sameButTrees_query s (s.space.hypercubesFor primary role)
    exact ⟨hanswer, h.of_sameButTrees hsame hsettled, hsame.dts, hsame.index⟩
  | describe k =>
    obtain ⟨hanswer, hrecalls⟩ := h.describe k
    obtain ⟨hdts, hindex, -⟩ := describe_dts s k
    exact ⟨hanswer, hrecalls, hdts, hindex⟩
  | preferredLabel parent child role => exact ⟨rfl, h, rfl, rfl⟩
  | validate checks =>
    have hsame := sameButTrees_validate s checks
    exact ⟨h.settled.validate_fst checks, h.of_sameButTrees hsame (h.settled.validate checks), hsame.dts, hsame.index⟩

/-- A session that has been derived and only asked since has kept nothing but what would be found again. -/
theorem Finalized.recalls {s : Session} (h : s.Finalized) : s.Recalls := by
  induction h with
  | finalize s => exact recalls_finalize s
  | resolveHypercube _ primary hypercube role ih => exact (ih.ask (.resolveHypercube primary hypercube role)).2.1
  | hypercubesFor _ primary role ih => exact (ih.ask (.hypercubesFor primary role)).2.1
  | describe _ k ih => exact (ih.ask (.describe k)).2.1
  | validate _ checks ih => exact (ih.ask (.validate checks)).2.1
  | @journal s hs j ih => exact ih.of_sameButTrees ⟨rfl, rfl, rfl⟩ (hs.journal j).settled

/-- Any number of questions leave what was derived as it is, and what they keep would be made again. -/
theorem Recalls.after {s : Session} (h : s.Recalls) (calls : List Call) :
    (s.after calls).Recalls ∧ (s.after calls).dts = s.dts ∧ (s.after calls).index = s.index := by
  unfold Session.after
  induction calls generalizing s with
  | nil => exact ⟨h, rfl, rfl⟩
  | cons c calls ih =>
    obtain ⟨-, hnext, hdts, hindex⟩ := h.ask c
    obtain ⟨hlast, hdts', hindex'⟩ := ih hnext
    exact ⟨hlast, hdts'.trans hdts, hindex'.trans hindex⟩

/-- The questions asked before do not show in an answer. Whatever they were, and whether or not they met faults, a
question is answered as by the session that has just been derived and keeps nothing. -/
theorem ask_after_finalize (s : Session) (calls : List Call) (c : Call) :
    ((s.finalize.after calls).ask c).1 = (s.finalize.ask c).1 := by
  have hfirst := recalls_finalize s
  obtain ⟨hlater, hdts, hindex⟩ := hfirst.after calls
  rw [(hlater.ask c).1, (hfirst.ask c).1, plain_congr hdts hindex]

end Session

end TaxonomySet
