namespace TaxonomySet

/-- How much a diagnostic weighs. -/
inductive Severity where
  | info
  | warning
  | error
deriving DecidableEq, Repr

/-- What kind of rule a diagnostic is about: the form of a document, a reference to something that
is missing, the rules of taxonomies, or the way the set was put together. -/
inductive Concern where
  | structural
  | reference
  | conformance
  | configuration
deriving DecidableEq, Repr

/-- One remark, with named details in the order in which they were added. -/
structure Diagnostic where
  severity : Severity
  concern : Concern
  code : String
  message : String
  fields : List (String × String) := []
deriving DecidableEq, Repr

namespace Diagnostic

/-- An error without details. -/
def error (concern : Concern) (code message : String) : Diagnostic :=
  ⟨.error, concern, code, message, []⟩

/-- A warning without details. -/
def warning (concern : Concern) (code message : String) : Diagnostic :=
  ⟨.warning, concern, code, message, []⟩

/-- Adds a named detail. -/
def withField (d : Diagnostic) (name value : String) : Diagnostic :=
  { d with fields := d.fields ++ [(name, value)] }

/-- The first detail of a name. -/
def field? (d : Diagnostic) (name : String) : Option String := d.fields.lookup name

/-- The diagnostic on one line: code, message, details. -/
def text (d : Diagnostic) : String :=
  d.fields.foldl (fun line f => line ++ " " ++ f.1 ++ "=" ++ f.2)
    ("[" ++ d.code ++ "] " ++ d.message)

end Diagnostic

/-- A result and the diagnostics met on the way to it, in order. -/
structure Reported (α : Type) where
  value : α
  diagnostics : List Diagnostic := []

namespace Reported

variable {α β : Type}

/-- Nothing to report. -/
def pure (a : α) : Reported α := ⟨a, []⟩

/-- No result, and one diagnostic. -/
def drop (d : Diagnostic) : Reported (Option α) := ⟨none, [d]⟩

/-- Changes the result. -/
def map (f : α → β) (r : Reported α) : Reported β := ⟨f r.value, r.diagnostics⟩

/-- Puts diagnostics before those of a result. -/
def after (ds : List Diagnostic) (r : Reported α) : Reported α := ⟨r.value, ds ++ r.diagnostics⟩

/-- The results of a list and all their diagnostics, in order. -/
def collect (rs : List (Reported α)) : Reported (List α) :=
  ⟨rs.map value, rs.flatMap diagnostics⟩

/-- The results that there are. -/
def collectSome (rs : List (Reported (Option α))) : Reported (List α) :=
  ⟨rs.filterMap value, rs.flatMap diagnostics⟩

end Reported

/-- The diagnostics reported so far. A journal that does not keep them stays empty. -/
structure Journal where
  keeps : Bool := true
  entries : List Diagnostic := []

namespace Journal

/-- Enters diagnostics. -/
def report (j : Journal) (ds : List Diagnostic) : Journal :=
  if j.keeps then { j with entries := j.entries ++ ds } else j

/-- Whether a code was reported. -/
def hasCode (j : Journal) (code : String) : Bool := j.entries.any (·.code == code)

/-- How many diagnostics of a severity were reported. -/
def count (j : Journal) (s : Severity) : Nat := j.entries.countP (·.severity == s)

/-- The journal without its entries. -/
def clear (j : Journal) : Journal := { j with entries := [] }

end Journal

end TaxonomySet
