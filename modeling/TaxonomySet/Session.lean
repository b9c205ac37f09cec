import TaxonomySet.Conformance
import TaxonomySet.Dimension.Query
import TaxonomySet.Discovery.Load
import TaxonomySet.Label

namespace TaxonomySet

/-- A taxonomy set at work. What is derived stays as it is until `finalize` derives it anew; only the rules on cycles
are looked up as they stand. -/
structure Session where
  dts : Dts := {}
  index : Index := {}
  trees : Dimension.Trees := {}
  labels : Memo LabelKey (Option String) := {}
  journal : Journal := {}

namespace Session

instance : Inhabited Session := ⟨{}⟩

/-- Enters diagnostics. -/
def report (s : Session) (ds : List Diagnostic) : Session := { s with journal := s.journal.report ds }

/-- Derives everything anew and forgets the answers kept. -/
def finalize (s : Session) : Session :=
  let derived := s.dts.index
  { s.report derived.diagnostics with index := derived.value, trees := {}, labels := {} }

/-- Loads the set of some entries on top of what there is. The locations read are listed in order.
A load that fails keeps what was found until then and derives nothing from it. -/
def load (s : Session) (store : Store) (options : Discovery.Options) (entries : List String) :
    Session × List String × Except Fault Discovery.Receipt :=
  let (d, result) := Discovery.load store options entries { dts := s.dts, journal := s.journal }
  let s := { s with dts := d.dts, journal := d.journal }
  match result with
  | .ok receipt => (s.finalize, d.asked, .ok receipt)
  | .error f => (s, d.asked, .error f)

/-- The tables, with the rules on cycles as they stand. -/
def space (s : Session) : Dimension.Space := { s.index.space with cyclesOf := s.dts.cyclesOf }

/-- Asks a dimensional question. A cycle that stops it is reported. -/
def query {α : Type} (s : Session) (q : Dimension.Query α) : Except DimensionFault α × Session :=
  let (answer, trees) := q.answer s.trees
  let s := { s with trees := trees }
  match answer with
  | .ok a => (.ok a, s)
  | .error f => (.error f, if f.isCycle then s.report [f.diagnostic] else s)

/-- A hypercube that a primary item is tied to in a role. -/
def resolveHypercube (s : Session) (primary hypercube : QName) (role : String) :
    Except DimensionFault Dimension.ResolvedHypercube × Session :=
  s.query (s.space.resolveHypercube primary hypercube role)

/-- All hypercubes that a primary item is tied to in a role. -/
def hypercubesFor (s : Session) (primary : QName) (role : String) :
    Except DimensionFault (List Dimension.ResolvedHypercube) × Session :=
  s.query (s.space.hypercubesFor primary role)

/-- The answer to a question for a label. -/
def describe (s : Session) (k : LabelKey) : Option String × Session :=
  match s.labels.look k with
  | (some found, labels) => (found, { s with labels := labels })
  | (none, labels) =>
    let (found, labels) := labels.store k (Label.describe s.index.network k)
    (found, { s with labels := labels })

/-- Asks for the hypercubes of all links to hypercubes, and gathers what stands in the way of the
answers, each fault once. -/
def checkResolution (s : Session) (found : List Finding) :
    List (QName × QName × String) → List Finding × Session
  | [] => (found, s)
  | (primary, hypercube, role) :: rest =>
    match s.resolveHypercube primary hypercube role with
    | (.ok _, s) => s.checkResolution found rest
    | (.error f, s) =>
      s.checkResolution (if .dimension f ∈ found then found else found ++ [.dimension f]) rest

/-- Makes the checks and reports what they find. Cycles have been reported by then. A strict check
fails if it finds anything. -/
def validate (s : Session) (checks : Conformance.Checks) : Except Fault (List Finding) × Session :=
  let standing := Conformance.standing checks s.dts s.index
  let s := s.report (standing.map Finding.diagnostic)
  let (resolving, s) :=
    if checks.dimensions then
      s.checkResolution [] (Conformance.hypercubeLinks s.index.tables.values)
    else ([], s)
  let s := s.report ((resolving.filter fun f => !f.isCycle).map Finding.diagnostic)
  let findings := standing ++ resolving
  if checks.strict && !findings.isEmpty then (.error (.findings findings.length), s)
  else (.ok findings, s)

end Session

end TaxonomySet
