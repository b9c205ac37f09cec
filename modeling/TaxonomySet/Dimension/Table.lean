import TaxonomySet.Dimension.View
import TaxonomySet.Relationship.Network

namespace TaxonomySet.Dimension

/-- The dimensional edges of one role. Equivalent edges compete by priority. The view shows the edges as of the last
rebuild; those inserted since then wait for the next. -/
structure Table where
  role : String
  /-- The candidates at the highest priority so far, prohibitions included. -/
  groups : SortedMap EquivalenceKey (List Edge) := ∅
  /-- The members that some edge takes out of use. They stay out of use when the edge is gone. -/
  unusable : SortedSet QName := ∅
  view : View := {}
deriving Inhabited

namespace Table

/-- Enters a candidate into its group: one of lower priority than those there is dropped, one of
higher priority takes their place. -/
def enter (e : Edge) (group : Option (List Edge)) : List Edge :=
  match group with
  | none | some [] => [e]
  | some (first :: rest) =>
    if e.priority < first.priority then first :: rest
    else if first.priority < e.priority then [e]
    else first :: rest ++ [e]

/-- Adds a candidate. -/
def insert (t : Table) (e : Edge) : Table := { t with groups := t.groups.alter e.key (enter e) }

/-- Adds candidates. -/
def insertAll (t : Table) (es : List Edge) : Table := es.foldl insert t

/-- The edges that count, one for each group that has any, in order. Equivalent edges carry the same
relationship, so the first of them stands for all. -/
def effective (t : Table) : List Edge :=
  (t.groups.values.filterMap fun group => (selectEffective group).head?).mergeSort fun a b =>
    (Edge.sequence a b).isLE

/-- Brings the view up to date. -/
def rebuild (t : Table) : Table :=
  let es := t.effective
  { t with
    unusable := t.unusable.insertAll ((es.filter Edge.vetoes).map (·.target))
    view := .ofArray es.toArray }

/-- The table of some edges. -/
def ofEdges (role : String) (es : List Edge) : Table := (Table.insertAll { role } es).rebuild

/-- Adds the candidates of another table behind those of this one. A member that is out of use in
either stays so. -/
def merge (t u : Table) : Table :=
  let entered := t.insertAll u.groups.values.flatten
  { entered with unusable := t.unusable.union u.unusable }.rebuild

/-- The table without the edges that leave what a node leads to, the node itself included. -/
def withoutDownstream (t : Table) (node : QName) : Table :=
  let reachable := t.view.edges.reachable node
  let kept := t.groups.filter fun _ group => group.head?.any fun e => !reachable.contains e.source
  { t with groups := kept }.rebuild

/-- The effective edges of an arcrole that leave a node, in order. -/
def edgesFrom (t : Table) (node : QName) (arcrole : Arcrole) : List Edge :=
  t.view.edges.fromNode node arcrole

/-- The effective edges of an arcrole that arrive at a node, in order. -/
def edgesTo (t : Table) (node : QName) (arcrole : Arcrole) : List Edge :=
  t.view.edges.toNode node arcrole

/-- The effective edges that tie a primary item to hypercubes, in order. -/
def hasHypercubeEdges (t : Table) (node : QName) : List Edge := t.view.edges.hasHypercube node

/-- Whether a member is out of use. -/
def isUnusable (t : Table) (member : QName) : Bool := t.unusable.contains member

/-- Whether the table has no candidates. -/
def isEmpty (t : Table) : Bool := t.groups.isEmpty

end Table

/-- The concepts that a label of a link stands for. -/
def concepts (resolve : Resolver) (l : ExtendedLink) (label : String) : List QName :=
  ((l.locators.get? label).getD []).filterMap fun href => (resolve href).bind Endpoint.concept?

/-- The edges that an arc makes. -/
def edgesOfArc (resolve : Resolver) (l : ExtendedLink) (a : Arc) (arcrole : Arcrole) : List Edge :=
  (concepts resolve l a.source).flatMap fun source => (concepts resolve l a.target).map fun target =>
    .ofArc a arcrole source target l.document

/-- Enters the dimensional arcs of a link into the table of its role, which is there as soon as the
link has such an arc. -/
def enterLink (resolve : Resolver) (tables : SortedMap String Table) (l : ExtendedLink) :
    SortedMap String Table :=
  if l.kind == .definition then
    l.arcList.foldl (fun tables a =>
      match Arcrole.ofUri? a.arcrole with
      | some arcrole => tables.alter l.role fun t =>
          (t.getD { role := l.role }).insertAll (edgesOfArc resolve l a arcrole)
      | none => tables) tables
  else tables

/-- The tables of definition links, one for each role. -/
def collect (resolve : Resolver) (links : List ExtendedLink) : SortedMap String Table :=
  (links.foldl (enterLink resolve) ∅).mapValues Table.rebuild

end TaxonomySet.Dimension
