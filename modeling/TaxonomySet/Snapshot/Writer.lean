import TaxonomySet.Json.Printer
import TaxonomySet.Json.Struct
import TaxonomySet.Snapshot.Basic

namespace TaxonomySet.Snapshot

open Json

/-- An optional string. -/
def writeText (s : Option String) : Json := ofOption string s

/-- A set of strings. -/
def writeTexts (s : SortedSet String) : Json := array (s.toList.map string)

/-- A qualified name. -/
def writeName (q : QName) : Json := object [("namespace", string q.ns), ("local_name", string q.localName)]

/-- The words for period types. -/
def periodWords : List (String × PeriodType) := [("Instant", .instant), ("Duration", .duration)]

/-- The words for balances. -/
def balanceWords : List (String × Balance) := [("Debit", .debit), ("Credit", .credit)]

/-- The words for rules on cycles. -/
def cyclesWords : List (String × Cycles) :=
  [("None", .none), ("Undirected", .undirected), ("Any", .any)]

/-- The words for uses of arcs. -/
def useWords : List (String × ArcUse) := [("Optional", .optional), ("Prohibited", .prohibited)]

/-- The words for the standard kinds of links. -/
def kindWords : List (String × LinkKind) := [
  ("Presentation", .presentation), ("Calculation", .calculation), ("Definition", .definition),
  ("Label", .label), ("Reference", .reference), ("Footnote", .footnote), ("Generic", .generic)]

/-- The word for a value. -/
def writeWord {α : Type} [BEq α] (words : List (String × α)) (a : α) : Json :=
  string (((words.find? (·.2 == a)).map (·.1)).getD "")

/-- A kind of link. -/
def writeKind : LinkKind → Json
  | .custom q => object [("Custom", writeName q)]
  | k => writeWord kindWords k

/-- Flags by name; bits without a name follow as one hexadecimal number. -/
def flagsText (f : Flags) : String :=
  " | ".intercalate (f.names ++
    if f.unnamed = 0 then [] else ["0x" ++ String.ofList (Nat.toDigits 16 f.unnamed)])

/-- A set of elements that a role is used on. -/
def writeUsedOn (u : UsedOn) : Json := object [
  ("flags", string (flagsText u.flags)),
  ("custom", array (u.custom.toList.map writeName))]

/-- The declaration of a role. -/
def writeRoleType (r : RoleType) : Json := object [
  ("uri", string r.uri),
  ("id", writeText r.id),
  ("definition", writeText r.definition),
  ("used_on", writeUsedOn r.usedOn),
  ("document", string r.document)]

/-- The declaration of an arcrole. -/
def writeArcroleType (a : ArcroleType) : Json := object [
  ("uri", string a.uri),
  ("id", writeText a.id),
  ("definition", writeText a.definition),
  ("used_on", writeUsedOn a.usedOn),
  ("cycles_allowed", writeWord cyclesWords a.cycles),
  ("document", string a.document)]

/-- An element. -/
def writeElement (e : Element) : Json := object [
  ("id", writeText e.id),
  ("name", writeName e.name),
  ("type_name", ofOption writeName e.typeName),
  ("substitution_group", ofOption writeName e.group),
  ("is_abstract", bool e.isAbstract),
  ("nillable", bool e.nillable),
  ("period_type", ofOption (writeWord periodWords) e.periodType),
  ("balance", ofOption (writeWord balanceWords) e.balance),
  ("typed_domain_ref", writeText e.typedDomain),
  ("document", string e.document)]

/-- A type. -/
def writeTypeDef (t : TypeDef) : Json :=
  object [("name", writeName t.name), ("base", ofOption writeName t.base)]

/-- A record of a linkbase. -/
def writeRecord (r : LinkbaseRecord) : Json := object [
  ("location", string r.location),
  ("role", writeText r.role),
  ("embedded", bool r.embedded),
  ("links", array (r.links.map fun (i : Nat) => integer i))]

/-- A taxonomy. -/
def writeTaxonomy (t : Taxonomy) : Json := object [
  ("namespace", string t.ns),
  ("location", string t.location),
  ("prefix", writeText t.nsPrefix),
  ("documents", writeTexts t.documents),
  ("imports", writeTexts t.imports),
  ("includes", writeTexts t.includes),
  ("elements", ofMap writeElement t.elements),
  ("id_index", ofMap string t.ids),
  ("types", ofMap writeTypeDef t.types),
  ("role_types", array (t.roleTypes.map writeRoleType)),
  ("arcrole_types", array (t.arcroleTypes.map writeArcroleType)),
  ("linkbases", array (t.linkbases.map writeRecord))]

/-- A reference to a place in a document. -/
def writeHref (h : Href) : Json :=
  object [("document", string h.document), ("fragment", writeText h.fragment)]

/-- A resource. -/
def writeResource (r : Resource) : Json := object [
  ("label", string r.label),
  ("element", writeName r.element),
  ("role", writeText r.role),
  ("lang", writeText r.lang),
  ("id", writeText r.id),
  ("text", string r.text)]

/-- An arc. -/
def writeArc (a : Arc) : Json := object [
  ("element", writeName a.element),
  ("arcrole", string a.arcrole),
  ("from", string a.source),
  ("to", string a.target),
  ("priority", integer a.priority.toInt),
  ("usage", writeWord useWords a.use),
  ("order", float a.order),
  ("weight", ofOption float a.weight),
  ("preferred_label", writeText a.preferredLabel),
  ("target_role", writeText a.targetRole),
  ("closed", ofOption bool a.closed),
  ("context_element", writeText a.contextElement),
  ("usable", ofOption bool a.usable),
  ("attributes", ofMap string a.attributes)]

/-- An extended link. -/
def writeLink (l : ExtendedLink) : Json := object [
  ("kind", writeKind l.kind),
  ("element", writeName l.element),
  ("role", string l.role),
  ("document", string l.document),
  ("locators", ofMap (fun hs => array (hs.map writeHref)) l.locators),
  ("resources", ofMap (fun rs => array (rs.map writeResource)) l.resources),
  ("arcs", ofMap (ofMap fun as => array (as.map writeArc)) l.arcs)]

/-- A snapshot. -/
def write (s : Snapshot) : Json := object [
  ("format_version", integer s.version.toNat),
  ("created", string s.created),
  ("main_namespace", writeText s.mainNamespace),
  ("base_taxonomy", writeText s.baseNamespace),
  ("nodes", array (s.taxonomies.map writeTaxonomy)),
  ("links", array (s.links.map writeLink)),
  ("role_types", array (s.roleTypes.map writeRoleType)),
  ("arcrole_types", array (s.arcroleTypes.map writeArcroleType))]

/-- A snapshot as text. -/
def save (s : Snapshot) : String := s.write.render

end TaxonomySet.Snapshot
