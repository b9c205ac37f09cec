import TaxonomySet.Closure
import TaxonomySet.Dimension.Edge
import TaxonomySet.Sorted.Positions
import TaxonomySet.Sorted.Set

namespace TaxonomySet.Dimension

/-- What a node of a table is used as. -/
inductive Category where
  | primaryItem
  | hypercube
  | dimension
  | member
deriving DecidableEq, Repr

/-- The word for a category. -/
def Category.text : Category → String
  | primaryItem => "primary item"
  | hypercube => "hypercube"
  | dimension => "dimension"
  | member => "member"

/-- A node in several categories. -/
structure Conflict where
  node : QName
  categories : List Category
deriving DecidableEq, Repr

/-- Edges with their indexes. -/
structure Edges where
  all : Array Edge := #[]
  outgoing : Positions QName := ∅
  incoming : Positions QName := ∅

namespace Edges

/-- Indexes edges that are in order already. -/
def ofArray (es : Array Edge) : Edges where
  all := es
  outgoing := .ofArray (some ·.source) es
  incoming := .ofArray (some ·.target) es

/-- All edges that leave a node, in order. -/
def leaving (es : Edges) (node : QName) : List Edge := es.outgoing.select es.all node

/-- The edges of an arcrole that leave a node, in order. -/
def fromNode (es : Edges) (node : QName) (arcrole : Arcrole) : List Edge :=
  (es.leaving node).filter (·.arcrole == arcrole)

/-- The edges of an arcrole that arrive at a node, in order. -/
def toNode (es : Edges) (node : QName) (arcrole : Arcrole) : List Edge :=
  (es.incoming.select es.all node).filter (·.arcrole == arcrole)

/-- The edges that tie a primary item to hypercubes, in order. -/
def hasHypercube (es : Edges) (node : QName) : List Edge :=
  (es.leaving node).filter (·.arcrole.isHasHypercube)

/-- The nodes that a node leads to, itself included. -/
def reachable (es : Edges) (node : QName) : SortedSet QName :=
  let domain := (SortedSet.ofList (es.all.toList.map (·.target))).insert node
  .ofList (closure (fun n => (es.leaving n).map (·.target)) domain.toList [node])

/-- The given nodes and all below them along domain-member edges. -/
def memberClosure (es : Edges) (seeds : SortedSet QName) : SortedSet QName :=
  let domain := seeds.insertAll (es.all.toList.map (·.target))
  .ofList (closure (fun n => (es.fromNode n .domainMember).map (·.target)) domain.toList seeds.toList)

end Edges

/-- Edges with the categories of the nodes that they connect. -/
structure View where
  edges : Edges := {}
  primaryItems : SortedSet QName := ∅
  hypercubes : SortedSet QName := ∅
  dimensions : SortedSet QName := ∅
  members : SortedSet QName := ∅
deriving Inhabited

namespace View

/-- The nodes that an edge names as primary items. -/
def primaryOf (e : Edge) : List QName := if e.arcrole.isHasHypercube then [e.source] else []

/-- The nodes that an edge names as hypercubes. -/
def hypercubesOf (e : Edge) : List QName :=
  match e.arcrole with
  | .all | .notAll => [e.target]
  | .hypercubeDimension => [e.source]
  | _ => []

/-- The nodes that an edge names as dimensions. -/
def dimensionsOf (e : Edge) : List QName :=
  match e.arcrole with
  | .hypercubeDimension => [e.target]
  | .dimensionDomain | .dimensionDefault => [e.source]
  | _ => []

/-- The nodes that an edge names as members of a dimension at its top. -/
def domainsOf (e : Edge) : List QName :=
  match e.arcrole with
  | .dimensionDomain | .dimensionDefault => [e.target]
  | _ => []

/-- The ends of a domain-member edge. -/
def memberEndsOf (e : Edge) : List QName :=
  if e.arcrole == .domainMember then [e.source, e.target] else []

/-- The view of edges that are in order already. Domain-member edges hang below primary items as
well as below domains; what hangs below a primary item is a primary item and no member. -/
def ofArray (es : Array Edge) : View :=
  let edges := Edges.ofArray es
  let nodes (f : Edge → List QName) : SortedSet QName := .ofList (es.toList.flatMap f)
  let primary := edges.memberClosure (nodes primaryOf)
  let members := (edges.memberClosure (nodes domainsOf)).union (nodes memberEndsOf)
  { edges := edges
    primaryItems := primary
    hypercubes := nodes hypercubesOf
    dimensions := nodes dimensionsOf
    members := members.filter fun n => !primary.contains n }

/-- The categories of a node. -/
def categories (v : View) (node : QName) : List Category :=
  (if node ∈ v.primaryItems then [.primaryItem] else []) ++
    (if node ∈ v.hypercubes then [.hypercube] else []) ++
    (if node ∈ v.dimensions then [.dimension] else []) ++
    (if node ∈ v.members then [.member] else [])

/-- All nodes in a category. -/
def nodes (v : View) : SortedSet QName :=
  ((v.primaryItems.union v.hypercubes).union v.dimensions).union v.members

/-- The nodes in more than one category. -/
def conflicts (v : View) : List Conflict :=
  (v.nodes.toList.map fun n => ⟨n, v.categories n⟩).filter fun c => 1 < c.categories.length

end View

end TaxonomySet.Dimension
