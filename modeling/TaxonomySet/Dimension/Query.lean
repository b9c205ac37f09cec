import TaxonomySet.Dimension.Tree
import TaxonomySet.Memo

namespace TaxonomySet.Dimension

/-- What the tree of a hypercube depends on. It does not depend on the primary item, so it is kept from the first time
that it is made. -/
structure TreeKey where
  role : String
  hypercube : QName
  targetRole : Option String
deriving DecidableEq, Repr

/-- A hypercube as it applies to a primary item. -/
structure ResolvedHypercube where
  primary : QName
  hypercube : QName
  role : String
  arcrole : Arcrole
  closed : Bool
  contextElement : Option String
  tree : HypercubeTree
deriving Repr

/-- The trees made so far. -/
abbrev Trees := Memo TreeKey HypercubeTree

/-- A query that may fail and that keeps the trees it makes even then. -/
abbrev Query (α : Type) := ExceptT DimensionFault (StateM Trees) α

namespace Query

/-- The answer that does not need any trees. -/
def ofExcept {α : Type} (a : Except DimensionFault α) : Query α := ExceptT.mk (pure a)

/-- The tree of a key, made if it is not there. -/
def tree (key : TreeKey) (make : Unit → Except DimensionFault HypercubeTree) : Query HypercubeTree :=
  ExceptT.mk fun trees => trees.compute key make

/-- The answer to a query and the trees afterwards. -/
def answer {α : Type} (q : Query α) (trees : Trees) : Except DimensionFault α × Trees := q.run trees

end Query

namespace Space

/-- The hypercube at the end of an edge, for a primary item that the edge applies to. -/
def resolveEdge (s : Space) (t : Table) (primary : QName) (e : Edge) : Query ResolvedHypercube := do
  let tree ← Query.tree ⟨t.role, e.target, e.targetRole⟩ fun _ => s.hypercube t e
  return ⟨primary, e.target, t.role, e.arcrole, e.closed, e.contextElement, tree⟩

/-- A hypercube that a primary item is tied to in a role. -/
def resolveHypercube (s : Space) (primary hypercube : QName) (role : String) :
    Query ResolvedHypercube := do
  let notLinked := DimensionFault.notLinked primary hypercube role
  let some t := s.tables.get? role | throw notLinked
  let edges ← Query.ofExcept (s.hasHypercubeEdges t primary)
  let some e := edges.find? (·.target == hypercube) | throw notLinked
  s.resolveEdge t primary e

/-- All hypercubes that a primary item is tied to in a role, its own first. -/
def hypercubesFor (s : Space) (primary : QName) (role : String) : Query (List ResolvedHypercube) :=
  match s.tables.get? role with
  | none => pure []
  | some t => do
    let edges ← Query.ofExcept (s.hasHypercubeEdges t primary)
    (edges.eraseDupsBy fun a b => a.target == b.target).mapM (s.resolveEdge t primary)

end Space

end TaxonomySet.Dimension
