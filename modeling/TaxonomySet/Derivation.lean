import TaxonomySet.Closure
import TaxonomySet.Concept
import TaxonomySet.Vocabulary

namespace TaxonomySet

/-- Whether a chain of steps from `name` reaches one of the heads. Steps are taken from the names listed as `unused`
only, and from each of them once. So a walk ends on cycles too, and misses nothing: a head met again would have been
met before. -/
def reaches (next : QName → Option QName) (heads : List QName) (unused : List QName)
    (name : QName) : Bool :=
  if name ∈ heads then true
  else if name ∈ unused then
    match next name with
    | some name' => reaches next heads (unused.erase name) name'
    | none => false
  else false
termination_by unused.length
decreasing_by
  rename_i hmem
  exact length_erase_lt_of_mem hmem

/-- The declarations of a taxonomy as look-ups by name, and the finitely many names that they
succeed for. -/
structure Declarations where
  element : QName → Option Element
  typeDef : QName → Option TypeDef
  namespaceOf : String → Option String
  elementNames : List QName
  typeNames : List QName
  mem_elementNames : ∀ {q e}, element q = some e → q ∈ elementNames
  mem_typeNames : ∀ {q t}, typeDef q = some t → q ∈ typeNames

namespace Declarations

/-- The declarations of lists. Of several with one name the last counts; prefixes are given with
their namespaces. -/
def ofLists (elements : List Element) (types : List TypeDef) (prefixes : List (String × String)) :
    Declarations where
  element q := elements.reverse.find? (·.name == q)
  typeDef q := types.reverse.find? (·.name == q)
  namespaceOf pre := prefixes.lookup pre
  elementNames := elements.map (·.name)
  typeNames := types.map (·.name)
  mem_elementNames {q e} h := by
    have hname : e.name = q := by simpa using List.find?_some h
    exact List.mem_map.2 ⟨e, List.mem_reverse.1 (List.mem_of_find?_eq_some h), hname⟩
  mem_typeNames {q t} h := by
    have hname : t.name = q := by simpa using List.find?_some h
    exact List.mem_map.2 ⟨t, List.mem_reverse.1 (List.mem_of_find?_eq_some h), hname⟩

/-- The element with a local name in the namespace of a prefix. -/
def elementOf? (ds : Declarations) (localName pre : String) : Option Element :=
  (ds.namespaceOf pre).bind fun ns => ds.element ⟨ns, localName⟩

/-- The substitution group of a declared element. -/
def group? (ds : Declarations) (name : QName) : Option QName := (ds.element name).bind (·.group)

/-- The type that a declared type derives from. -/
def base? (ds : Declarations) (name : QName) : Option QName := (ds.typeDef name).bind (·.base)

/-- Whether a name is one of the heads or belongs, directly or not, to the substitution group of
one. -/
def substitutes (ds : Declarations) (name : QName) (heads : List QName) : Bool :=
  reaches ds.group? heads ds.elementNames name

/-- Whether a type is one of the bases or derives, directly or not, from one. -/
def derives (ds : Declarations) (name : QName) (bases : List QName) : Bool :=
  reaches ds.base? bases ds.typeNames name

/-- The class of a name. A name without a declaration is of no particular class. -/
def classify (ds : Declarations) (name : QName) : ConceptClass :=
  match ds.element name with
  | none => .other
  | some e =>
    if ds.substitutes name [⟨Vocabulary.dimensions, "hypercubeItem"⟩] then .hypercube
    else if ds.substitutes name [⟨Vocabulary.dimensions, "dimensionItem"⟩] then
      .dimension e.typedDomain.isSome
    else if ds.substitutes name [⟨Vocabulary.instanceDocument, "item"⟩] then .item
    else if ds.substitutes name [⟨Vocabulary.instanceDocument, "tuple"⟩] then .tuple
    else .other

end Declarations

end TaxonomySet
