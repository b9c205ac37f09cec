import TaxonomySet.Text.Quoted

namespace TaxonomySet

/-- Why a file could not be read or written. -/
inductive FileFault where
  | missing
  | isDirectory
  | notDirectory
deriving DecidableEq, Repr

/-- The words of the operating system for a file fault. -/
def FileFault.message : FileFault → String
  | missing => "No such file or directory (os error 2)"
  | isDirectory => "Is a directory (os error 21)"
  | notDirectory => "Not a directory (os error 20)"

/-- Why a document could not be understood. -/
inductive DocumentFault where
  | invalidText
  | malformed
  | unboundName (name : String)
  | unbalanced
  | unclosed
  | noRoot
  | notSchema (root : String)
deriving DecidableEq, Repr

/-- The wording of a document fault at a location. -/
def DocumentFault.message (location : String) : DocumentFault → String
  | invalidText => "Invalid UTF-8 in " ++ location
  | malformed => location ++ ": malformed markup"
  | unboundName name => location ++ ": unbound prefix on element " ++ name
  | unbalanced => location ++ ": unbalanced end tag"
  | unclosed => location ++ ": unclosed elements"
  | noRoot => location ++ ": no root element"
  | notSchema root => location ++ ": root element " ++ root ++ " is not xs:schema"

/-- Why an operation failed. -/
inductive Fault where
  | file (cause : FileFault)
  | document (location : String) (cause : DocumentFault)
  | notFound (location : String)
  | remote (location : String)
  | noEntries
  | entryUnreadable (location : String) (cause : Fault)
  | entryNotSchema (location : String) (cause : Fault)
  | snapshotVersion (version : Nat)
  | snapshotBase (expected found : Option String)
  | findings (count : Nat)
  | snapshotText
deriving DecidableEq, Repr

namespace Fault

/-- The families that faults fall into. -/
inductive Family where
  | io
  | parse
  | configuration
  | validation
  | notFound
  | snapshot
deriving DecidableEq, Repr

/-- The family of a fault. -/
def family : Fault → Family
  | file _ => .io
  | document _ _ => .parse
  | notFound _ | remote _ => .notFound
  | noEntries | entryUnreadable _ _ | entryNotSchema _ _ => .configuration
  | snapshotVersion _ | snapshotBase _ _ => .configuration
  | findings _ => .validation
  | snapshotText => .snapshot

/-- What introduces the faults of a family. -/
def Family.heading : Family → String
  | .io => "IO error: "
  | .parse => "Parse error: "
  | .configuration => "Configuration error: "
  | .validation => "Validation error: "
  | .notFound => "Not found: "
  | .snapshot => "Snapshot error: "

/-- The full wording of a fault. -/
def message : Fault → String
  | file cause => Family.io.heading ++ cause.message
  | document location cause => Family.parse.heading ++ cause.message location
  | notFound location => Family.notFound.heading ++ location
  | remote location =>
    Family.notFound.heading ++ "remote document " ++ location ++ " (only local files are fetched)"
  | noEntries => Family.configuration.heading ++ "no entry points given"
  | entryUnreadable location cause =>
    Family.configuration.heading ++ "entry point " ++ location ++ " could not be read: " ++
      cause.message
  | entryNotSchema location cause =>
    Family.configuration.heading ++ "entry point " ++ location ++ " is not a schema: " ++
      cause.message
  | snapshotVersion version =>
    Family.configuration.heading ++ "unsupported snapshot format " ++ toString version
  | snapshotBase expected found =>
    Family.configuration.heading ++ "extension snapshot expects base " ++ Text.quoteOption expected ++
      ", got " ++ Text.quoteOption found
  | findings count =>
    Family.validation.heading ++ "validation failed with " ++ toString count ++ " errors"
  | snapshotText => Family.snapshot.heading ++ "the text is no snapshot"

end Fault

end TaxonomySet
