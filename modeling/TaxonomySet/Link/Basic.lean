import TaxonomySet.Decimal.Binary64
import TaxonomySet.Link.Kind
import TaxonomySet.Link.Override
import TaxonomySet.Location.Href
import TaxonomySet.Sorted.Map

namespace TaxonomySet

/-- A resource in a link, such as the text of a label. -/
structure Resource where
  label : String
  element : QName
  role : Option String := none
  lang : Option String := none
  id : Option String := none
  text : String
deriving DecidableEq, Repr

/-- Whether an arc makes a relationship or takes one back. -/
inductive ArcUse where
  | optional
  | prohibited
deriving DecidableEq, Repr

/-- An arc between two labels. -/
structure Arc where
  element : QName
  arcrole : String
  source : String
  target : String
  priority : Int32
  use : ArcUse
  order : Binary64
  weight : Option Binary64
  preferredLabel : Option String
  targetRole : Option String
  closed : Option Bool
  contextElement : Option String
  usable : Option Bool
  /-- The attributes that tell relationships apart, in canonical form and under Clark names. Those
  with their default value are left out. -/
  attributes : SortedMap String String
deriving DecidableEq

/-- Whether an arc takes a relationship back. -/
def Arc.isProhibited (a : Arc) : Bool := a.use == .prohibited

instance : Overridable Arc where
  priority a := a.priority.toInt
  isProhibited a := a.isProhibited

/-- An extended link. An arc between two of its labels stands for relationships between all that the labels stand
for. -/
structure ExtendedLink where
  kind : LinkKind
  element : QName
  role : String
  document : String
  locators : SortedMap String (List Href) := ∅
  resources : SortedMap String (List Resource) := ∅
  /-- The arcs by source label and then by target label, in document order. -/
  arcs : SortedMap String (SortedMap String (List Arc)) := ∅
deriving DecidableEq

namespace ExtendedLink

/-- The arcs ordered by their labels and then as in the document. -/
def arcList (l : ExtendedLink) : List Arc := l.arcs.values.flatMap fun m => m.values.flatten

/-- The arcs between two labels, in document order. -/
def arcsBetween (l : ExtendedLink) (source target : String) : List Arc :=
  ((l.arcs.get? source).bind (·.get? target)).getD []

/-- Whether a label stands for something. -/
def hasLabel (l : ExtendedLink) (label : String) : Bool :=
  l.locators.contains label || l.resources.contains label

/-- Adds an arc behind those between the same labels. -/
def addArc (l : ExtendedLink) (a : Arc) : ExtendedLink :=
  { l with arcs := l.arcs.alter a.source fun targets => (targets.getD ∅).push a.target a }

end ExtendedLink

end TaxonomySet
