import TaxonomySet.Dimension.Fault
import TaxonomySet.Dimension.Table
import TaxonomySet.Role.Registry

namespace TaxonomySet.Dimension

/-- A member with the members below it. -/
structure Member where
  name : QName
  usable : Bool
  children : List Member
deriving Repr

namespace Member

mutual

/-- The member and all below it, each before its children. -/
def preorder : Member → List Member
  | ⟨name, usable, children⟩ => ⟨name, usable, children⟩ :: preorderAll children

/-- The members of several trees. -/
def preorderAll : List Member → List Member
  | [] => []
  | m :: ms => m.preorder ++ preorderAll ms

end

end Member

/-- A dimension with the trees of its domains. -/
structure ResolvedDimension where
  name : QName
  typed : Bool
  default : Option QName
  domains : List Member
deriving Repr

namespace ResolvedDimension

/-- All members in the order of a walk, those out of use included. -/
def members (d : ResolvedDimension) : List QName := (Member.preorderAll d.domains).map (·.name)

/-- The members that may be used, in the order of a walk. -/
def usableMembers (d : ResolvedDimension) : List QName :=
  ((Member.preorderAll d.domains).filter (·.usable)).map (·.name)

end ResolvedDimension

/-- A hypercube with its dimensions. -/
structure HypercubeTree where
  hypercube : QName
  dimensions : List ResolvedDimension
deriving Repr

/-- The first dimension with a name. -/
def HypercubeTree.dimension? (t : HypercubeTree) (name : QName) : Option ResolvedDimension :=
  t.dimensions.find? (·.name == name)

/-- The tables of a taxonomy set, and what its declarations say about dimensions and cycles. -/
structure Space where
  tables : SortedMap String Table := ∅
  /-- The ends of all candidates of the tables. -/
  nodes : SortedSet QName := ∅
  isTyped : QName → Bool := fun _ => false
  cyclesOf : Arcrole → Cycles := fun _ => .none

namespace Space

instance : Inhabited Space := ⟨{}⟩

/-- The space of given tables. -/
def ofTables (tables : SortedMap String Table) (isTyped : QName → Bool) (cyclesOf : Arcrole → Cycles) :
    Space where
  tables := tables
  nodes := .ofList (tables.values.flatMap fun t => t.groups.values.flatten.flatMap fun e =>
    [e.source, e.target])
  isTyped := isTyped
  cyclesOf := cyclesOf

/-- What comes of an edge back to a node that the walk has entered. -/
def checkCycle (s : Space) (t : Table) (e : Edge) : Except DimensionFault Unit :=
  if (s.cyclesOf e.arcrole).allowsDirected then .ok () else .error (.cycle e.target e.arcrole t.role)

/-- The edges that tie a node, or any node above it, to hypercubes: its own first, then those of each
node above it in turn. -/
def inherited (s : Space) (t : Table) (free : List QName) (node : QName) :
    Except DimensionFault (List Edge) := do
  let above ← (t.edgesTo node .domainMember).mapM fun e =>
    if e.source ∈ free then s.inherited t (free.erase e.source) e.source
    else do
      s.checkCycle t e
      return []
  return t.hasHypercubeEdges node ++ above.flatten
termination_by free.length
decreasing_by
  rename_i hmem
  exact length_erase_lt_of_mem hmem

/-- The edges that tie a primary item to hypercubes, inherited ones included, each once. -/
def hasHypercubeEdges (s : Space) (t : Table) (primary : QName) : Except DimensionFault (List Edge) :=
  (s.inherited t (s.nodes.toList.erase primary) primary).map List.eraseDups

/-- The table that holds below an edge. An edge with a target role leads into the table of that role: what hangs below
the edge in the present table is left out, and the other table is added. -/
def follow (s : Space) (t : Table) (e : Edge) : Except DimensionFault Table :=
  match e.targetRole with
  | none => .ok t
  | some role =>
    if role = t.role then .ok t
    else match s.tables.get? role with
      | some target => .ok ((t.withoutDownstream e.target).merge target)
      | none => .error (.targetRoleNotResolved t.role role e.arcrole)

/-- The tree of members at the end of an edge. A node that the walk has entered already stands there without children.
The walk carries the nodes that it may still enter. They become fewer with each step, so it ends whatever cycles there
are. -/
def member (s : Space) (free : List QName) (t : Table) (e : Edge) : Except DimensionFault Member := do
  let usable := e.usable && !t.isUnusable e.target
  if e.target ∈ free then
    let below ← s.follow t e
    let children ← (below.edgesFrom e.target .domainMember).mapM fun child =>
      s.member (free.erase e.target) below child
    return ⟨e.target, usable, children⟩
  else
    s.checkCycle t e
    return ⟨e.target, usable, []⟩
termination_by free.length
decreasing_by
  rename_i hmem
  exact length_erase_lt_of_mem hmem

/-- The members that are named defaults of a dimension in any role. -/
def defaultCandidates (s : Space) (dimension : QName) : SortedSet QName :=
  .ofList (s.tables.values.flatMap fun t => (t.edgesFrom dimension .dimensionDefault).map (·.target))

/-- The default of a dimension, unless there are several. -/
def default? (s : Space) (dimension : QName) : Option QName :=
  match (s.defaultCandidates dimension).toList with
  | [member] => some member
  | _ => none

/-- A dimension with the trees of its domains. A typed dimension has none, whatever its edges. -/
def dimension (s : Space) (free : List QName) (t : Table) (name : QName) :
    Except DimensionFault ResolvedDimension := do
  let typed := s.isTyped name
  let domains ← if typed then pure [] else
    (t.edgesFrom name .dimensionDomain).mapM (s.member free t)
  return ⟨name, typed, s.default? name, domains⟩

/-- The dimension at the end of an edge, none if the edge leads back to the hypercube. -/
def dimensionOf (s : Space) (free : List QName) (t : Table) (e : Edge) :
    Except DimensionFault (Option ResolvedDimension) := do
  if e.target ∈ free then
    let below ← s.follow t e
    return some (← s.dimension (free.erase e.target) below e.target)
  else
    s.checkCycle t e
    return none

/-- The hypercube at the end of an edge with its dimensions. -/
def hypercube (s : Space) (t : Table) (e : Edge) : Except DimensionFault HypercubeTree := do
  let below ← s.follow t e
  let free := s.nodes.toList.erase e.target
  let dimensions ← (below.edgesFrom e.target .hypercubeDimension).mapM (s.dimensionOf free below)
  return ⟨e.target, dimensions.filterMap id⟩

end Space

end TaxonomySet.Dimension
