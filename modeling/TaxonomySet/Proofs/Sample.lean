import TaxonomySet.Session
import TaxonomySet.Store.Shelf

namespace TaxonomySet.Sample

open Dimension

/-- A name without a namespace. -/
def name (s : String) : QName := ⟨"", s⟩

/-- An arc between two concepts, which are labelled by their names. -/
def arc (arcrole : Arcrole) (source target : String) (targetRole : Option String) : Arc where
  element := ⟨Vocabulary.link, "definitionArc"⟩
  arcrole := arcrole.uri
  source := source
  target := target
  priority := 0
  use := .optional
  order := Binary64.one
  weight := none
  preferredLabel := none
  targetRole := targetRole
  closed := none
  contextElement := if arcrole.isHasHypercube then some "segment" else none
  usable := none
  attributes := .ofList (targetRole.map fun role => ("targetRole", role)).toList

/-- The edge that an arc makes. -/
def edge (arcrole : Arcrole) (source target : String) (targetRole : Option String) : Edge :=
  .ofArc (arc arcrole source target targetRole) arcrole (name source) (name target) "links.xml"

/-- A definition link with the locators that its arcs need. -/
def link (role : String) (arcs : List Arc) : ExtendedLink :=
  arcs.foldl .addArc {
    kind := .definition
    element := ⟨Vocabulary.link, "definitionLink"⟩
    role := role
    document := "links.xml"
    locators := .ofList ((arcs.flatMap fun a => [a.source, a.target]).map fun label =>
      (label, [⟨"schema.xsd", some label⟩])) }

/-- An abstract element in the substitution group of another. -/
def element (head : QName) (s : String) : Element where
  id := some s
  name := name s
  typeName := none
  group := some head
  isAbstract := true
  nillable := false
  periodType := none
  balance := none
  typedDomain := none
  document := "schema.xsd"

/-- A plain item. -/
def item : String → Element := element ⟨Vocabulary.instanceDocument, "item"⟩

/-- A hypercube. -/
def hypercube : String → Element := element ⟨Vocabulary.dimensions, "hypercubeItem"⟩

/-- A dimension. -/
def dimension : String → Element := element ⟨Vocabulary.dimensions, "dimensionItem"⟩

/-- The derived session of some elements and links. -/
def session (elements : List Element) (links : List ExtendedLink) : Session :=
  Session.finalize { dts :=
    (({} : Dts).addTaxonomy (elements.foldl .addElement (.start "" "schema.xsd" none))).addLinks links }

/-- The table of a role, empty if there is none. -/
def table (s : Session) (role : String) : Table := (s.space.tables.get? role).getD { role }

theorem get?_tables {s : Session} {role : String} (h : (s.space.tables.get? role).isSome = true) :
    s.space.tables.get? role = some (table s role) := by
  obtain ⟨t, ht⟩ := Option.isSome_iff_exists.1 h
  unfold table
  rw [ht, Option.getD_some]

/-- A schema with a linkbase in it. The one arc of the linkbase has a given order. -/
def orderingSchema (order : String) : String :=
  "<schema xmlns=\"http://www.w3.org/2001/XMLSchema\"><annotation><appinfo>" ++
    "<linkbase xmlns=\"http://www.xbrl.org/2003/linkbase\" xmlns:k=\"http://www.w3.org/1999/xlink\">" ++
    "<presentationLink k:type=\"extended\" k:role=\"http://www.xbrl.org/2003/role/link\">" ++
    "<label k:type=\"resource\" k:label=\"a\"/>" ++
    "<presentationArc k:type=\"arc\" k:arcrole=\"http://www.xbrl.org/2003/arcrole/parent-child\" " ++
    "k:from=\"a\" k:to=\"a\" order=\"" ++ order ++ "\"/>" ++
    "</presentationLink></linkbase></appinfo></annotation></schema>"

/-- The schema alone. -/
def orderingStore (order : String) : Store :=
  (({} : Shelf).put "schema.xsd" (orderingSchema order).toUTF8).store

/-- The numbers of the arcs of each link. -/
def numbers (d : Dts) : List (List (Binary64 × Option Binary64)) :=
  d.links.map fun l => l.arcList.map fun a => (a.order, a.weight)

/-- A schema of a namespace with an annotation. -/
def annotatedSchema (ns content : String) : String :=
  "<schema xmlns=\"http://www.w3.org/2001/XMLSchema\" targetNamespace=\"" ++ ns ++
    "\"><annotation><appinfo>" ++ content ++ "</appinfo></annotation></schema>"

/-- A declaration of a role. -/
def roleType (uri content : String) : String :=
  "<roleType xmlns=\"http://www.xbrl.org/2003/linkbase\" roleURI=\"" ++ uri ++ "\">" ++ content ++ "</roleType>"

/-- A reference to a linkbase. -/
def linkbaseRef (href : String) : String :=
  "<linkbaseRef xmlns=\"http://www.xbrl.org/2003/linkbase\" xmlns:k=\"http://www.w3.org/1999/xlink\" k:href=\"" ++
    href ++ "\"/>"

/-- A linkbase with some links. -/
def linkbaseOf (links : String) : String :=
  "<linkbase xmlns=\"http://www.xbrl.org/2003/linkbase\" xmlns:k=\"http://www.w3.org/1999/xlink\">" ++ links ++
    "</linkbase>"

/-- A linkbase with one link in a role, in which the label `x` stands for what a reference points to. -/
def roleLinkbase (role href : String) : String :=
  linkbaseOf ("<labelLink k:type=\"extended\" k:role=\"" ++ role ++ "\">" ++
    "<loc k:type=\"locator\" k:label=\"x\" k:href=\"" ++ href ++ "\"/></labelLink>")

/-- Such a linkbase in the standard role. -/
def linkbase (href : String) : String := roleLinkbase "http://www.xbrl.org/2003/role/link" href

/-- A definition link with one domain-member arc between two concepts, which has further attributes. -/
def memberLink (role attributes : String) : String :=
  "<definitionLink k:type=\"extended\" k:role=\"" ++ role ++ "\">" ++
    "<loc k:type=\"locator\" k:label=\"p\" k:href=\"a.xsd#p\"/>" ++
    "<loc k:type=\"locator\" k:label=\"m\" k:href=\"a.xsd#m\"/>" ++
    "<definitionArc k:type=\"arc\" k:arcrole=\"http://xbrl.org/int/dim/arcrole/domain-member\" " ++
    "k:from=\"p\" k:to=\"m\"" ++ attributes ++ "/></definitionLink>"

/-- An annotated schema with the two concepts. -/
def memberSchema (content : String) : String :=
  "<schema xmlns=\"http://www.w3.org/2001/XMLSchema\" targetNamespace=\"a\"><annotation><appinfo>" ++ content ++
    "</appinfo></annotation><element name=\"p\" id=\"p\"/><element name=\"m\" id=\"m\"/></schema>"

/-- A schema with an arc between its concepts, and one that imports it and has the arc once more, with further
attributes. -/
def repeating (attributes : String) : List (String × String) := [
  ("a.xsd", memberSchema (linkbaseRef "l.xml")),
  ("l.xml", linkbaseOf (memberLink "http://www.xbrl.org/2003/role/link" "")),
  ("b.xsd", "<schema xmlns=\"http://www.w3.org/2001/XMLSchema\" targetNamespace=\"b\"><annotation><appinfo>" ++
    linkbaseRef "m.xml" ++
    "</appinfo></annotation><import namespace=\"a\" schemaLocation=\"a.xsd\"/></schema>"),
  ("m.xml", linkbaseOf (memberLink "http://www.xbrl.org/2003/role/link" attributes))]

/-- The second schema takes the arc back. -/
def contested : List (String × String) := repeating " use=\"prohibited\" priority=\"1\""

end TaxonomySet.Sample
