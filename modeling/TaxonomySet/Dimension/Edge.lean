import TaxonomySet.Dimension.Arcrole
import TaxonomySet.Link.Equivalence

namespace TaxonomySet.Dimension

/-- A dimensional relationship between two concepts. -/
structure Edge where
  element : QName
  arcrole : Arcrole
  source : QName
  target : QName
  targetRole : Option String
  order : Binary64
  priority : Int32
  isProhibited : Bool
  usable : Bool
  closed : Bool
  contextElement : Option String
  document : String
  /-- The attributes that tell relationships apart. -/
  attributes : SortedMap String String
deriving DecidableEq

namespace Edge

/-- The edge that an arc makes between two concepts. -/
def ofArc (a : Arc) (arcrole : Arcrole) (source target : QName) (document : String) : Edge where
  element := a.element
  arcrole := arcrole
  source := source
  target := target
  targetRole := a.targetRole
  order := a.order
  priority := a.priority
  isProhibited := a.isProhibited
  usable := a.usable.getD true
  closed := a.closed.getD false
  contextElement := a.contextElement
  document := document
  attributes := a.attributes

/-- What identifies the edge within its table. -/
def key (e : Edge) : EquivalenceKey :=
  ⟨e.element, e.arcrole.uri, .concept e.source, .concept e.target, e.attributes.entries⟩

instance : Overridable Edge where
  priority e := e.priority.toInt
  isProhibited e := e.isProhibited

/-- Whether the edge takes its target out of use. -/
def vetoes (e : Edge) : Bool :=
  !e.usable && (e.arcrole == .domainMember || e.arcrole == .dimensionDomain)

/-- The order of the edges of a table: by source and arcrole, then as the arcs say, then by
target. -/
def sequence : Edge → Edge → Ordering :=
  compareLex (compareOn source) <| compareLex (compareOn arcrole) <|
    compareLex (compareOn order) (compareOn target)

instance : Std.TransCmp sequence := by
  unfold sequence
  infer_instance

end Edge

end TaxonomySet.Dimension
