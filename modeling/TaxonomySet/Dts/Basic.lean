import TaxonomySet.Derivation
import TaxonomySet.Relationship.Network
import TaxonomySet.Taxonomy

namespace TaxonomySet

/-- What is known of a taxonomy set. Taxonomies and links are numbered in the order in which they were added. -/
structure Dts where
  taxonomies : List Taxonomy := []
  byNamespace : SortedMap String Nat := ∅
  byLocation : SortedMap String Nat := ∅
  registry : Registry := {}
  links : List ExtendedLink := []
  /-- The resources with an id, by document and id. -/
  resources : SortedMap String (SortedMap String Resource) := ∅
  mainNamespace : Option String := none
deriving DecidableEq

namespace Dts

instance : Inhabited Dts := ⟨{}⟩

/-- Adds a taxonomy, which gets the next number, under its namespace and its documents. -/
def addTaxonomy (d : Dts) (t : Taxonomy) : Dts := { d with
  taxonomies := d.taxonomies ++ [t]
  byNamespace := d.byNamespace.insert t.ns d.taxonomies.length
  byLocation := t.documents.toList.foldl (fun m l => m.insert l d.taxonomies.length) d.byLocation }

/-- Changes one taxonomy. -/
def modifyTaxonomy (d : Dts) (id : Nat) (f : Taxonomy → Taxonomy) : Dts :=
  { d with taxonomies := d.taxonomies.modify id f }

/-- Counts a document among those of a taxonomy. -/
def registerLocation (d : Dts) (location : String) (id : Nat) : Dts :=
  { d with byLocation := d.byLocation.insert location id }.modifyTaxonomy id fun t =>
    { t with documents := t.documents.insert location }

/-- The taxonomy of a namespace. -/
def taxonomyOf? (d : Dts) (ns : String) : Option Taxonomy :=
  (d.byNamespace.get? ns).bind (d.taxonomies[·]?)

/-- The taxonomy that a document contributes to. -/
def taxonomyAt? (d : Dts) (location : String) : Option Taxonomy :=
  (d.byLocation.get? location).bind (d.taxonomies[·]?)

/-- The element with a name. -/
def element? (d : Dts) (q : QName) : Option Element :=
  (d.taxonomyOf? q.ns).bind (·.elements.get? q.localName)

/-- The type with a name. -/
def typeDef? (d : Dts) (q : QName) : Option TypeDef :=
  (d.taxonomyOf? q.ns).bind (·.types.get? q.localName)

/-- The namespace of the first taxonomy with a prefix. -/
def namespaceOf? (d : Dts) (pre : String) : Option String :=
  (d.taxonomies.find? (·.nsPrefix == some pre)).map (·.ns)

/-- The names under which the taxonomies keep something by local name. -/
def namesIn {α : Type} (d : Dts) (f : Taxonomy → SortedMap String α) : List QName :=
  d.byNamespace.keys.flatMap fun ns =>
    ((d.taxonomyOf? ns).map fun t => (f t).keys.map (⟨ns, ·⟩)).getD []

theorem mem_namesIn {α : Type} {d : Dts} {f : Taxonomy → SortedMap String α} {q : QName} {a : α}
    (h : (d.taxonomyOf? q.ns).bind (fun t => (f t).get? q.localName) = some a) :
    q ∈ d.namesIn f := by
  obtain ⟨t, ht, ha⟩ := Option.bind_eq_some_iff.1 h
  obtain ⟨i, hi, -⟩ := Option.bind_eq_some_iff.1 ht
  have hns := SortedMap.mem_entries_of_get? hi
  have hlocal := SortedMap.mem_entries_of_get? ha
  refine List.mem_flatMap.2 ⟨q.ns, List.mem_map.2 ⟨_, hns, rfl⟩, ?_⟩
  rw [ht]
  exact List.mem_map.2 ⟨q.localName, List.mem_map.2 ⟨_, hlocal, rfl⟩, rfl⟩

/-- The declarations of all taxonomies. -/
def declarations (d : Dts) : Declarations where
  element := d.element?
  typeDef := d.typeDef?
  namespaceOf := d.namespaceOf?
  elementNames := d.namesIn (·.elements)
  typeNames := d.namesIn (·.types)
  mem_elementNames := mem_namesIn
  mem_typeNames := mem_namesIn

/-- Enters the resources of a link that have an id. -/
def indexResources (resources : SortedMap String (SortedMap String Resource)) (l : ExtendedLink) :
    SortedMap String (SortedMap String Resource) :=
  l.resources.values.flatten.foldl (fun m r =>
    match r.id with
    | some id => m.alter l.document fun byId => (byId.getD ∅).insert id r
    | none => m) resources

/-- Adds links, which get the next numbers. -/
def addLinks (d : Dts) (links : List ExtendedLink) : Dts := { d with
  links := d.links ++ links
  resources := links.foldl indexResources d.resources }

/-- The numbers that links get when they are added. -/
def nextLinks (d : Dts) (links : List ExtendedLink) : List Nat :=
  (List.range links.length).map (d.links.length + ·)

/-- Adds the links of a linkbase and attaches them to all its records. -/
def addLinkbase (d : Dts) (location : String) (links : List ExtendedLink) : Dts :=
  { d.addLinks links with
    taxonomies := d.taxonomies.map (·.attach location (d.nextLinks links)) }

/-- The concept or the resource that a reference points to. -/
def resolve (d : Dts) : Resolver := fun href =>
  href.fragment.bind fun id =>
    match (d.taxonomyAt? href.document).bind (·.elementById? id) with
    | some e => some (.concept e.name)
    | none => ((d.resources.get? href.document).bind (·.get? id)).map .resource

/-- The links of the linkbases that a taxonomy refers to. -/
def linksOf (d : Dts) (t : Taxonomy) : List ExtendedLink :=
  (t.linkbases.flatMap (·.links)).filterMap (d.links[·]?)

end Dts

end TaxonomySet
