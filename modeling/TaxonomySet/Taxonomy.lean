import TaxonomySet.Role.Registry
import TaxonomySet.Schema
import TaxonomySet.Sorted.Set

namespace TaxonomySet

/-- A linkbase that a schema refers to or holds, and the places of its links in the set. -/
structure LinkbaseRecord where
  location : String
  role : Option String := none
  embedded : Bool := false
  links : List Nat := []
deriving DecidableEq, Repr

/-- The declarations of one namespace. -/
structure Taxonomy where
  ns : String
  /-- The document that was read first. -/
  location : String
  nsPrefix : Option String := none
  /-- The documents that contribute. -/
  documents : SortedSet String
  imports : SortedSet String := ∅
  includes : SortedSet String := ∅
  /-- The elements by local name. -/
  elements : SortedMap String Element := ∅
  /-- The local names of elements by id. -/
  ids : SortedMap String String := ∅
  /-- The types by local name. -/
  types : SortedMap String TypeDef := ∅
  roleTypes : List RoleType := []
  arcroleTypes : List ArcroleType := []
  linkbases : List LinkbaseRecord := []
deriving DecidableEq

namespace Taxonomy

/-- The taxonomy of a namespace of which one document is known. -/
def start (ns location : String) (nsPrefix : Option String) : Taxonomy where
  ns := ns
  location := location
  nsPrefix := nsPrefix
  documents := .ofList [location]

/-- The element with an id. -/
def elementById? (t : Taxonomy) (id : String) : Option Element := (t.ids.get? id).bind t.elements.get?

/-- Adds an element under its local name and its id. -/
def addElement (t : Taxonomy) (e : Element) : Taxonomy := { t with
  ids := match e.id with
    | some id => t.ids.insert id e.name.localName
    | none => t.ids
  elements := t.elements.insert e.name.localName e }

/-- The report of an element that is declared again. -/
def duplicateElement (document : String) (e : Element) : Diagnostic :=
  (Diagnostic.error .structural "xmlschema:duplicateElement"
    ("element " ++ e.name.clark ++ " declared twice")).withField "document" document

/-- Adds an element unless there is one of its local name already, which is reported. -/
def declare (document : String) (acc : Reported Taxonomy) (e : Element) : Reported Taxonomy :=
  if acc.value.elements.contains e.name.localName then
    ⟨acc.value, acc.diagnostics ++ [duplicateElement document e]⟩
  else ⟨acc.value.addElement e, acc.diagnostics⟩

/-- The linkbases of a schema, an embedded one last. -/
def recordsOf (s : Schema) : List LinkbaseRecord :=
  (s.linkbaseRefs.map fun r => { location := r.location, role := r.role }) ++
    if s.hasLinkbases then [{ location := s.location, embedded := true }] else []

/-- Adds what a schema contributes. Of several elements with one local name the first stays, of
several types the last. -/
def addSchema (t : Taxonomy) (s : Schema) : Reported Taxonomy :=
  (s.elements.foldl (declare s.location) ⟨t, []⟩).map fun t => { t with
    types := s.types.foldl (fun m d => m.insert d.name.localName d) t.types
    roleTypes := t.roleTypes ++ s.roleTypes
    arcroleTypes := t.arcroleTypes ++ s.arcroleTypes
    imports := t.imports.insertAll (s.imports.map (·.location))
    includes := t.includes.insertAll s.includes
    linkbases := t.linkbases ++ recordsOf s }

/-- Adds links to the records of a linkbase. -/
def attach (t : Taxonomy) (location : String) (links : List Nat) : Taxonomy := { t with
  linkbases := t.linkbases.map fun r =>
    if r.location = location then { r with links := r.links ++ links } else r }

end Taxonomy

end TaxonomySet
