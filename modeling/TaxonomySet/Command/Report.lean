import TaxonomySet.Session

namespace TaxonomySet.Command

/-- A line that a command prints. How long a load took is known to the outer layer only. -/
inductive Line where
  | text (s : String)
  | time
deriving DecidableEq, Repr

/-- A mark for what went well. -/
def done : String := "✓ "

/-- A mark for what is not there. -/
def absent : String := "✗ "

/-- The lines of a list of texts. -/
def lines (texts : List String) : List Line := texts.map .text

/-- The texts of lines, cut where they contain line ends. -/
def printed (ls : List Line) : List String :=
  let all := String.join (ls.map fun
    | .text s => s ++ "\n"
    | .time => "")
  ((Text.pieces '\n' all.toList).dropLast).map fun cs =>
    String.ofList (if cs.getLast? = some '\r' then cs.dropLast else cs)

/-- How large a taxonomy set is. -/
def summary (s : Session) : List Line :=
  lines [
    done ++ "DTS loaded",
    "  Nodes: " ++ toString s.dts.taxonomies.length,
    "  Extended links: " ++ toString s.dts.links.length,
    "  Relationships: " ++ toString s.index.network.size,
    "  Definition roles: " ++ toString s.index.tables.size] ++ [.time]

/-- How many diagnostics of a journal are shown. -/
def shownDiagnostics : Nat := 10

/-- The word for a severity. -/
def severityTag : Severity → String
  | .error => "ERROR:"
  | .warning => "WARN:"
  | .info => "INFO:"

/-- The diagnostics of a journal, the first of them in full. -/
def diagnostics (j : Journal) : List Line :=
  if j.entries.isEmpty then []
  else
    lines (("  Diagnostics: " ++ toString (j.count .error) ++ " errors, " ++ toString (j.count .warning) ++
      " warnings") ::
      (j.entries.take shownDiagnostics).map fun d => "  " ++ severityTag d.severity ++ " " ++ d.text) ++
    if shownDiagnostics < j.entries.length then
      [.text ("  ... and " ++ toString (j.entries.length - shownDiagnostics) ++ " more")]
    else []

mutual

/-- A member and those below it, each level indented by two more. -/
def member (indent : String) : Dimension.Member → List Line
  | ⟨name, usable, children⟩ =>
    .text (indent ++ (if usable then "· " else "× ") ++ name.clark) :: members (indent ++ "  ") children

/-- The members of several trees. -/
def members (indent : String) : List Dimension.Member → List Line
  | [] => []
  | m :: ms => member indent m ++ members indent ms

end

/-- A dimension with its members. -/
def dimension (d : Dimension.ResolvedDimension) : List Line :=
  .text ("  ◆ " ++ d.name.clark ++ " " ++ (if d.typed then "typed" else "explicit") ++
    (d.default.elim "" fun m => " (default " ++ m.clark ++ ")")) :: members "    " d.domains

/-- The last segment of a URI. -/
def lastSegment (uri : String) : String :=
  String.ofList ((Text.pieces '/' uri.toList).getLast?.getD [])

/-- A hypercube with its dimensions. -/
def hypercube (h : Dimension.ResolvedHypercube) : List Line :=
  .text ("■ " ++ h.hypercube.clark ++ " [" ++ lastSegment h.arcrole.uri ++
    (if h.closed then ", closed" else "") ++ "]") :: h.tree.dimensions.flatMap dimension

end TaxonomySet.Command
