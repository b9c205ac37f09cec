import TaxonomySet.Command.Report
import TaxonomySet.Command.Usage
import TaxonomySet.Snapshot.Reader
import TaxonomySet.Store.FileTree

namespace TaxonomySet.Command

/-- Why a command stops. -/
inductive Failure where
  | load (cause : Fault)
  | readSnapshot (path : String)
  | restore (cause : Fault)
  | writeSnapshot (path : String)
  | malformedName (text : String)
  | noPrefix (text : String)
  | unknownConcept (text : String)
  | dimension (cause : DimensionFault)
deriving DecidableEq, Repr

/-- The wording of a failure. -/
def Failure.message : Failure → String
  | load _ => "Failed to load DTS"
  | readSnapshot path => "Failed to read snapshot " ++ path
  | restore cause => cause.message
  | writeSnapshot path => "Failed to write snapshot " ++ path
  | malformedName text => "malformed Clark name " ++ text
  | noPrefix text => "expected prefix:local, got " ++ text
  | unknownConcept text => "unknown concept " ++ text
  | dimension cause => cause.message

/-- What a command leaves behind: the lines printed, the files asked for, a snapshot to be written,
and whether it went well. -/
structure Outcome where
  lines : List Line := []
  asked : List String := []
  save : Option (String × String) := none
  failure : Option Failure := none
  succeeds : Bool := true

namespace Outcome

/-- The outcome of a command that stops. -/
def stop (asked : List String) (f : Failure) : Outcome :=
  { asked := asked, failure := some f, succeeds := false }

/-- The exit code. -/
def exitCode (o : Outcome) : Nat := if o.succeeds then 0 else 1

/-- What is written to the error output, of which the first line counts. -/
def complaint? (o : Outcome) : Option String :=
  o.failure.map fun f => String.ofList (("Error: " ++ f.message).toList.takeWhile (· != '\n'))

/-- The outcome once the snapshot has been written, or could not be. -/
def afterSaving (o : Outcome) (written : Bool) : Outcome :=
  match o.save with
  | none => o
  | some (path, _) =>
    if written then
      { o with
        lines := o.lines ++ [.text (done ++ "snapshot written to " ++ path)]
        save := none }
    else { o with save := none, failure := some (.writeSnapshot path), succeeds := false }

end Outcome

/-- The last component of a path, if it is a name. -/
def fileName? (path : String) : Option String :=
  (FileTree.components path).getLast?.bind fun c => if c = ".." then none else some c

/-- Whether a file is a snapshot by its name. -/
def isSnapshotPath (path : String) : Bool :=
  (fileName? path).any fun name =>
    match Text.dropEnd? ".json".toList name.toList with
    | some stem => !stem.isEmpty
    | none => false

/-- Loads the set of some entries. -/
def loadEntries (t : FileTree) (options : Discovery.Options) (entries : List String) :
    List String × Except Failure Session :=
  match Session.load {} t.store options entries with
  | (s, asked, .ok _) => (asked, .ok s)
  | (_, asked, .error f) => (asked, .error (.load f))

/-- Opens a snapshot, or loads the set of an entry. -/
def openSource (t : FileTree) (source : String) : List String × Except Failure Session :=
  if isSnapshotPath source then
    ([source],
      match (t.readFile source).toOption.bind Text.decode? with
      | none => .error (.readSnapshot source)
      | some text =>
        match Snapshot.load text with
        | .error _ => .error (.readSnapshot source)
        | .ok snapshot => (snapshot.restore {}).mapError .restore)
  else loadEntries t {} [source]

/-- The concept that a text names, in Clark notation or with the prefix of a taxonomy. -/
def conceptOf (s : Session) (text : String) : Except Failure QName :=
  match Text.afterStart? "\x7b" text with
  | some rest =>
    match Text.cut? '}' rest with
    | some (ns, localName) => .ok ⟨ns, localName⟩
    | none => .error (.malformedName text)
  | none =>
    match Text.cut? ':' text with
    | none => .error (.noPrefix text)
    | some (pre, localName) =>
      match s.dts.declarations.elementOf? localName pre with
      | some e => .ok e.name
      | none => .error (.unknownConcept text)

/-- Loads a taxonomy set. -/
def runLoad (t : FileTree) (created : String) (c : LoadCommand) : Outcome :=
  match loadEntries t { linkbases := c.linkbases } c.entries with
  | (asked, .error f) => .stop asked f
  | (asked, .ok s) =>
    let (findings, checked) := if c.validate then s.validate {} else (.ok [], s)
    { lines := summary s ++
        (match c.validate, findings with
          | true, .ok fs => [.text ("  Validation findings: " ++ toString fs.length)]
          | _, _ => []) ++
        diagnostics checked.journal
      asked := asked
      save := c.snapshot.map fun path => (path, (Snapshot.capture checked.dts created).save)
      succeeds := !(c.strict && 0 < checked.journal.count .error) }

/-- Shows the hypercubes of a primary item. -/
def runHypercubes (t : FileTree) (c : HypercubesCommand) : Outcome :=
  match openSource t c.source with
  | (asked, .error f) => .stop asked f
  | (asked, .ok s) =>
    match conceptOf s c.primary with
    | .error f => .stop asked f
    | .ok primary =>
      match s.hypercubesFor primary c.role with
      | (.error f, _) => .stop asked (.dimension f)
      | (.ok hypercubes, s) =>
        { lines :=
            (if hypercubes.isEmpty then
              [.text (absent ++ primary.clark ++ " has no hypercubes in " ++ c.role)]
            else hypercubes.flatMap hypercube) ++ diagnostics s.journal
          asked := asked }

/-- Shows a label of a concept. -/
def runLabel (t : FileTree) (c : LabelCommand) : Outcome :=
  match openSource t c.source with
  | (asked, .error f) => .stop asked f
  | (asked, .ok s) =>
    match conceptOf s c.concept with
    | .error f => .stop asked f
    | .ok concept =>
      let key : LabelKey := ⟨concept, c.lang, c.roles, c.linkRole, "en"⟩
      match (s.describe key).1 with
      | some label => { lines := [.text label], asked := asked }
      | none =>
        { lines := [.text (absent ++ "no label for " ++ concept.clark)]
          asked := asked
          succeeds := false }

/-- Runs a command on the files that are known. Writing a snapshot is left to the outer layer, which then says whether
it succeeded. -/
def run (t : FileTree) (created : String) : Request → Outcome
  | .load c => runLoad t created c
  | .hypercubes c => runHypercubes t c
  | .label c => runLabel t c

end TaxonomySet.Command
