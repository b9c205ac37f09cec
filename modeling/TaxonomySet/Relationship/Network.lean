import TaxonomySet.Diagnostic
import TaxonomySet.Relationship.Basic
import TaxonomySet.Sorted.Positions
import TaxonomySet.Sorted.Set

namespace TaxonomySet

/-- Finds the concept or the resource that a reference points to. -/
abbrev Resolver := Href → Option Endpoint

namespace ExtendedLink

/-- What a label stands for: the targets of its locators that resolve, then its resources. -/
def endpoints (l : ExtendedLink) (resolve : Resolver) (label : String) : List Endpoint :=
  ((l.locators.get? label).getD []).filterMap resolve ++
    ((l.resources.get? label).getD []).map .resource

/-- The candidates of a link, which is the one in place `i`. -/
def candidates (resolve : Resolver) (l : ExtendedLink) (i : Nat) : List (BaseSetKey × Relationship) :=
  l.arcList.flatMap fun arc =>
    let targets := l.endpoints resolve arc.target
    (l.endpoints resolve arc.source).flatMap fun source => targets.map fun target =>
      (⟨l.kind, l.role, arc.arcrole⟩, ⟨source, target, arc, l.role, l.document, i⟩)

/-- The references behind the labels of the link's arcs that do not resolve, with repetitions. -/
def unresolved (resolve : Resolver) (l : ExtendedLink) : List Href :=
  l.arcList.flatMap fun arc => [arc.source, arc.target].flatMap fun label =>
    ((l.locators.get? label).getD []).filter fun href => (resolve href).isNone

/-- The report of a locator of the link whose target is not found. -/
def locatorTarget (l : ExtendedLink) (href : Href) : Diagnostic :=
  ((Diagnostic.error .reference "xbrl.3.5.3.7.2:locatorTarget"
    ("locator target " ++ href.text ++ " does not resolve")).withField "document" l.document).withField
      "role" l.role

end ExtendedLink

/-- The relationships of a base set in their order, with indexes by the concepts they connect. -/
structure BaseSet where
  relationships : Array Relationship
  outgoing : Positions QName
  incoming : Positions QName

namespace BaseSet

/-- The base set of the relationships that prevail in their groups. -/
def ofGroups (groups : SortedMap EquivalenceKey (List Relationship)) : BaseSet :=
  let prevailing := groups.values.flatMap selectEffective
  let sorted := (prevailing.mergeSort fun a b => (Relationship.order a b).isLE).toArray
  { relationships := sorted
    outgoing := .ofArray (·.source.concept?) sorted
    incoming := .ofArray (·.target.concept?) sorted }

end BaseSet

/-- The base sets that have a relationship. -/
structure Network where
  sets : SortedMap BaseSetKey BaseSet := ∅

namespace Network

instance : Inhabited Network := ⟨{}⟩

/-- The candidates of all links. -/
def candidates (resolve : Resolver) (links : List ExtendedLink) : List (BaseSetKey × Relationship) :=
  links.zipIdx.flatMap fun (l, i) => l.candidates resolve i

/-- The candidates by base set and by what identifies them, each group in document order. -/
def group (cs : List (BaseSetKey × Relationship)) :
    SortedMap BaseSetKey (SortedMap EquivalenceKey (List Relationship)) :=
  cs.foldl (fun m c => m.alter c.1 fun groups => (groups.getD ∅).push c.2.key c.2) ∅

/-- The reports of references that do not resolve, one for each, made where it stands first. -/
def unresolved (resolve : Resolver) (links : List ExtendedLink) : List Diagnostic :=
  let found := links.flatMap fun l => (l.unresolved resolve).map fun href => (href, l)
  (found.eraseDupsBy fun a b => a.1 == b.1).map fun (href, l) => l.locatorTarget href

/-- The network of a list of links. Equivalent candidates compete, and those that are left are sorted, so that the
order in which documents were read does not show. -/
def ofLinks (resolve : Resolver) (links : List ExtendedLink) : Reported Network :=
  let sets := (group (candidates resolve links)).mapValues BaseSet.ofGroups
  ⟨⟨sets.filter fun _ set => !set.relationships.isEmpty⟩, unresolved resolve links⟩

/-- The relationships of a base set. -/
def relationships (n : Network) (key : BaseSetKey) : List Relationship :=
  ((n.sets.get? key).map (·.relationships.toList)).getD []

/-- The relationships of a base set that start from a concept. -/
def childrenOf (n : Network) (key : BaseSetKey) (concept : QName) : List Relationship :=
  match n.sets.get? key with
  | some set => set.outgoing.select set.relationships concept
  | none => []

/-- The relationships of a base set that lead to a concept. -/
def parentsOf (n : Network) (key : BaseSetKey) (concept : QName) : List Relationship :=
  match n.sets.get? key with
  | some set => set.incoming.select set.relationships concept
  | none => []

/-- The roles of the links of a kind. -/
def linkRoles (n : Network) (kind : LinkKind) : SortedSet String :=
  .ofList ((n.sets.keys.filter (·.kind == kind)).map (·.role))

/-- The number of relationships. -/
def size (n : Network) : Nat := n.sets.values.foldl (fun count set => count + set.relationships.size) 0

/-- Whether there is no base set. -/
def isEmpty (n : Network) : Bool := n.sets.isEmpty

end Network

end TaxonomySet
