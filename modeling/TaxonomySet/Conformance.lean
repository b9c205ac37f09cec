import TaxonomySet.Dimension.Tree
import TaxonomySet.Dts.Index

namespace TaxonomySet

open Dimension

/-- A breach of the rules of dimensions. -/
inductive Finding where
  /-- The source of an edge is of the wrong class. -/
  | sourceClass (arcrole : Arcrole) (role : String) (node : QName) (found : ConceptClass)
  /-- The target of an edge is of the wrong class. -/
  | targetClass (arcrole : Arcrole) (role : String) (node : QName) (found : ConceptClass)
  | hypercubeNotAbstract (hypercube : QName)
  | missingContextElement (role : String) (primary hypercube : QName)
  | polymorphism (role : String) (node : QName) (categories : List Category)
  | dimension (fault : DimensionFault)
deriving DecidableEq, Repr

namespace Finding

/-- How codes call an arcrole. -/
def arcroleName : Arcrole → String
  | .all | .notAll => "HasHypercube"
  | .hypercubeDimension => "HypercubeDimension"
  | .dimensionDomain => "DimensionDomain"
  | .dimensionDefault => "DimensionDefault"
  | .domainMember => "DomainMember"

/-- The code that a finding is reported under. -/
def code : Finding → String
  | sourceClass arcrole .. => "xbrldte:" ++ arcroleName arcrole ++ "SourceError"
  | targetClass arcrole .. => "xbrldte:" ++ arcroleName arcrole ++ "TargetError"
  | hypercubeNotAbstract _ => "xbrldte:HypercubeElementIsNotAbstractError"
  | missingContextElement .. => "xbrldte:HasHypercubeMissingContextElementAttributeError"
  | polymorphism .. => "xbrldte:PrimaryItemPolymorphismError"
  | dimension fault => fault.code

/-- The wording of a finding. -/
def message : Finding → String
  | sourceClass _ role node found =>
    node.clark ++ " is not a valid source in " ++ role ++ " (classified " ++ found.text ++ ")"
  | targetClass _ role node found =>
    node.clark ++ " is not a valid target in " ++ role ++ " (classified " ++ found.text ++ ")"
  | hypercubeNotAbstract hypercube => "hypercube " ++ hypercube.clark ++ " is not abstract"
  | missingContextElement role primary hypercube =>
    primary.clark ++ " -> " ++ hypercube.clark ++ " in " ++ role ++ " has no xbrldt:contextElement"
  | polymorphism role node categories =>
    node.clark ++ " is used as " ++ " and ".intercalate (categories.map Category.text) ++ " in " ++ role
  | dimension fault => fault.message

/-- The finding as a diagnostic. -/
def diagnostic (f : Finding) : Diagnostic := .error .conformance f.code f.message

/-- Whether the finding is a cycle. -/
def isCycle : Finding → Bool
  | dimension fault => fault.isCycle
  | _ => false

end Finding

namespace Conformance

/-- Whether the source of an edge may be of a class. -/
def allowsSource : Arcrole → ConceptClass → Bool
  | .all, c | .notAll, c | .domainMember, c => c.isPlainItem
  | .hypercubeDimension, c => c == .hypercube
  | .dimensionDomain, c | .dimensionDefault, c => c.isDimension

/-- Whether the target of an edge may be of a class. -/
def allowsTarget : Arcrole → ConceptClass → Bool
  | .all, c | .notAll, c => c == .hypercube
  | .hypercubeDimension, c => c.isDimension
  | .dimensionDomain, c | .dimensionDefault, c | .domainMember, c => c.isPlainItem

/-- What is wrong with an edge by itself. -/
def checkEdge (classOf : QName → ConceptClass) (role : String) (e : Edge) : List Finding :=
  (if allowsSource e.arcrole (classOf e.source) then []
    else [.sourceClass e.arcrole role e.source (classOf e.source)]) ++
  (if allowsTarget e.arcrole (classOf e.target) then []
    else [.targetClass e.arcrole role e.target (classOf e.target)]) ++
  if e.arcrole.isHasHypercube && e.contextElement.isNone then
    [.missingContextElement role e.source e.target]
  else []

/-- What is wrong with the edges of the tables. -/
def checkEdges (classOf : QName → ConceptClass) (tables : List Table) : List Finding :=
  tables.flatMap fun t => t.view.edges.all.toList.flatMap (checkEdge classOf t.role)

/-- The nodes that some table has in a category. -/
def nodesIn (category : View → SortedSet QName) (tables : List Table) : List QName :=
  (SortedSet.ofList (tables.flatMap fun t => (category t.view).toList)).toList

/-- The hypercubes that are declared without being abstract. -/
def checkHypercubes (element : QName → Option Element) (tables : List Table) : List Finding :=
  ((nodesIn (·.hypercubes) tables).filter fun h => (element h).any fun e => !e.isAbstract).map
    .hypercubeNotAbstract

/-- The nodes in several categories of a table. -/
def checkCategories (tables : List Table) : List Finding :=
  tables.flatMap fun t => t.view.conflicts.map fun c => .polymorphism t.role c.node c.categories

/-- The dimensions with several defaults. -/
def checkDefaults (s : Space) : List Finding :=
  (nodesIn (·.dimensions) s.tables.values).filterMap fun d =>
    let count := (s.defaultCandidates d).size
    if 1 < count then some (.dimension (.tooManyDefaults d count)) else none

/-- The typed dimensions with a domain. -/
def checkTyped (s : Space) : List Finding :=
  ((nodesIn (·.dimensions) s.tables.values).filter fun d =>
    s.isTyped d && s.tables.values.any fun t => !(t.edgesFrom d .dimensionDomain).isEmpty).map fun d =>
      .dimension (.typedDimensionWithDomain d)

/-- The ends and the role of all edges that tie primary items to hypercubes. -/
def hypercubeLinks (tables : List Table) : List (QName × QName × String) :=
  tables.flatMap fun t => (t.view.edges.all.toList.filter (·.arcrole.isHasHypercube)).map fun e =>
    (e.source, e.target, t.role)

/-- Which checks are made, and whether a finding makes the whole check fail. -/
structure Checks where
  strict : Bool := false
  classes : Bool := true
  dimensions : Bool := true

/-- The findings that come from looking at the tables. Those that come from resolving hypercubes are found by asking
for them. -/
def standing (checks : Checks) (d : Dts) (i : Index) : List Finding :=
  let tables := i.tables.values
  (if checks.classes then
    checkEdges i.classOf tables ++ checkHypercubes d.element? tables ++ checkCategories tables
  else []) ++
  if checks.dimensions then checkDefaults i.space ++ checkTyped i.space else []

end Conformance

end TaxonomySet
