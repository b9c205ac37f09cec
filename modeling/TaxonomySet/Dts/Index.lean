import TaxonomySet.Dimension.Tree
import TaxonomySet.Dts.Basic

namespace TaxonomySet

/-- What is derived from a taxonomy set. -/
structure Index where
  network : Network := {}
  space : Dimension.Space := {}
  /-- The tables made of the links of each taxonomy alone, in the order of the taxonomies. -/
  ownTables : List (SortedMap String Dimension.Table) := []
  classes : SortedMap QName ConceptClass := ∅

namespace Index

instance : Inhabited Index := ⟨{}⟩

/-- The class of a name; a name that no taxonomy has declared is of no particular class. -/
def classOf (i : Index) (name : QName) : ConceptClass := (i.classes.get? name).getD .other

/-- The tables of the whole set by role. -/
def tables (i : Index) : SortedMap String Dimension.Table := i.space.tables

/-- The tables of one taxonomy by role. -/
def tablesOf (i : Index) (taxonomy : Nat) : SortedMap String Dimension.Table :=
  i.ownTables[taxonomy]?.getD ∅

end Index

namespace Dts

/-- The classes of all elements. -/
def classes (d : Dts) : SortedMap QName ConceptClass :=
  let declarations := d.declarations
  .ofList ((d.taxonomies.flatMap (·.elements.values)).map fun e => (e.name, declarations.classify e.name))

/-- Whether an element is a typed dimension. -/
def isTyped (classes : SortedMap QName ConceptClass) (name : QName) : Bool :=
  classes.get? name == some (.dimension true)

/-- The rule on cycles of a dimensional arcrole. -/
def cyclesOf (d : Dts) (arcrole : Dimension.Arcrole) : Cycles := d.registry.cyclesOf arcrole.uri

/-- Derives what can be derived, and reports references that do not resolve. -/
def index (d : Dts) : Reported Index :=
  let classes := d.classes
  (Network.ofLinks d.resolve d.links).map fun network => {
    network := network
    space := .ofTables (Dimension.collect d.resolve d.links) (isTyped classes) d.cyclesOf
    ownTables := d.taxonomies.map fun t => Dimension.collect d.resolve (d.linksOf t)
    classes := classes }

end Dts

end TaxonomySet
