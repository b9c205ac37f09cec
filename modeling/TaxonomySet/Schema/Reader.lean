import TaxonomySet.Fault
import TaxonomySet.Location
import TaxonomySet.Markup.Node
import TaxonomySet.Schema
import TaxonomySet.Text.Quoted

namespace TaxonomySet.Schema

open Markup

/-- An error about the form of a document. -/
def structural (location code message : String) : Diagnostic :=
  (Diagnostic.error .structural code message).withField "document" location

/-- The name that an attribute's value means. -/
def nameAttr? (n : Node) (attr : String) : Option QName := (n.attr? attr).bind n.resolveName?

/-- Whether a flag attribute is set. -/
def flagAttr (n : Node) (attr : String) : Bool :=
  n.attr? attr == some "true" || n.attr? attr == some "1"

/-- A global element declaration. -/
def readElement (location ns : String) (n : Node) : Reported (Option Element) :=
  match n.attr? "name" with
  | none =>
    .drop (structural location "xmlschema:elementName" "global element declaration without a name")
  | some name => .pure <| some {
      id := n.id?
      name := ⟨ns, name⟩
      typeName := nameAttr? n "type"
      group := nameAttr? n "substitutionGroup"
      isAbstract := flagAttr n "abstract"
      nillable := flagAttr n "nillable"
      periodType := (n.attrIn? Vocabulary.instanceDocument "periodType").bind PeriodType.ofWord?
      balance := (n.attrIn? Vocabulary.instanceDocument "balance").bind Balance.ofWord?
      typedDomain := (n.attrIn? Vocabulary.dimensions "typedDomainRef").map
        (Location.resolveReference location)
      document := location }

/-- A global type declaration, if it has a name. Its base is that of the first restriction or
extension within it, in document order. -/
def readType (ns : String) (n : Node) : Option TypeDef :=
  (n.attr? "name").map fun name =>
    let derivation := n.descendants.find? fun d =>
      d.isNamed Vocabulary.xmlSchema "restriction" || d.isNamed Vocabulary.xmlSchema "extension"
    ⟨⟨ns, name⟩, derivation.bind fun d => nameAttr? d "base"⟩

/-- The elements that a role is declared for. -/
def readUsedOn (location : String) (n : Node) : Reported UsedOn :=
  let names := (n.childrenNamed Vocabulary.link "usedOn").map fun entry =>
    match entry.resolveName? entry.text with
    | some q => (⟨some q, []⟩ : Reported (Option QName))
    | none => .drop (structural location "xbrl.5.1.3.4:usedOn"
        ("usedOn value " ++ Text.quote entry.text ++ " does not resolve"))
  (Reported.collectSome names).map UsedOn.ofList

/-- The definition of a role. -/
def readDefinition (n : Node) : Option String :=
  (n.childrenNamed Vocabulary.link "definition").head?.map fun d => Text.trim d.text

/-- The declaration of a role. -/
def readRoleType (location : String) (n : Node) : Reported (Option RoleType) :=
  match n.attr? "roleURI" with
  | none => .drop (structural location "xbrl.5.1.3:roleURI" "roleType without roleURI")
  | some uri => (readUsedOn location n).map fun usedOn => some {
      uri := Text.trim uri
      id := n.id?
      definition := readDefinition n
      usedOn := usedOn
      document := location }

/-- The declaration of an arcrole. -/
def readArcroleType (location : String) (n : Node) : Reported (Option ArcroleType) :=
  match n.attr? "arcroleURI", (n.attr? "cyclesAllowed").bind Cycles.ofWord? with
  | some uri, some cycles => (readUsedOn location n).map fun usedOn => some {
      uri := Text.trim uri
      id := n.id?
      definition := readDefinition n
      usedOn := usedOn
      cycles := cycles
      document := location }
  | _, _ => .drop (structural location "xbrl.5.1.4:arcroleTypeAttributes"
      "arcroleType without arcroleURI or a valid cyclesAllowed")

/-- The reference to a linkbase; a fragment says nothing here. -/
def readLinkbaseRef (location : String) (n : Node) : Reported (Option LinkbaseRef) :=
  match n.xlink? "href" with
  | none => .drop (structural location "xbrl.4.3.2:linkbaseRefHref" "linkbaseRef without xlink:href")
  | some href =>
    .pure (some ⟨Location.resolve location (Location.splitFragment href).1, n.xlink? "role"⟩)

/-- One thing that a schema declares or refers to. -/
inductive Item where
  | element (e : Element)
  | typeDef (t : TypeDef)
  | role (r : RoleType)
  | arcrole (a : ArcroleType)
  | importing (i : Import)
  | including (location : String)
  | linkbase (r : LinkbaseRef)
  | embeddedLinkbase

/-- What an element within `appinfo` contributes. -/
def readAppinfoItem (location : String) (n : Node) : Reported (Option Item) :=
  if n.isNamed Vocabulary.link "roleType" then (readRoleType location n).map (·.map .role)
  else if n.isNamed Vocabulary.link "arcroleType" then (readArcroleType location n).map (·.map .arcrole)
  else if n.isNamed Vocabulary.link "linkbaseRef" then (readLinkbaseRef location n).map (·.map .linkbase)
  else if n.isNamed Vocabulary.link "linkbase" then .pure (some .embeddedLinkbase)
  else .pure none

/-- What a child of the schema element contributes. -/
def readItems (location ns : String) (n : Node) : Reported (List Item) :=
  if n.ns ≠ some Vocabulary.xmlSchema then .pure []
  else match n.localName with
    | "element" => (readElement location ns n).map fun e => (e.map Item.element).toList
    | "complexType" | "simpleType" => .pure ((readType ns n).map Item.typeDef).toList
    | "import" => .pure ((n.attr? "schemaLocation").map fun href =>
        Item.importing ⟨n.attr? "namespace", Location.resolve location href⟩).toList
    | "include" =>
      match n.attr? "schemaLocation" with
      | some href => .pure [.including (Location.resolve location href)]
      | none => ⟨[], [structural location "xmlschema:includeLocation" "xs:include without schemaLocation"]⟩
    | "annotation" => Reported.collectSome
        ((n.childrenNamed Vocabulary.xmlSchema "appinfo").flatMap fun appinfo =>
          appinfo.children.map (readAppinfoItem location))
    | _ => .pure []

/-- The schema made of its items. -/
def ofItems (location ns : String) (nsPrefix : Option String) (items : List Item) : Schema where
  location := location
  ns := ns
  nsPrefix := nsPrefix
  elements := items.filterMap fun | .element e => some e | _ => none
  types := items.filterMap fun | .typeDef t => some t | _ => none
  roleTypes := items.filterMap fun | .role r => some r | _ => none
  arcroleTypes := items.filterMap fun | .arcrole a => some a | _ => none
  imports := items.filterMap fun | .importing i => some i | _ => none
  includes := items.filterMap fun | .including l => some l | _ => none
  linkbaseRefs := items.filterMap fun | .linkbase r => some r | _ => none
  hasLinkbases := items.any fun | .embeddedLinkbase => true | _ => false

/-- Reads the schema in a document. A schema without a target namespace takes that of the schema that includes it,
given as `adopted`. What is missing or does not resolve is reported; only a document whose root is no schema fails. -/
def read (location : String) (adopted : Option String) (root : Node) :
    Except DocumentFault (Reported Schema) :=
  if root.isNamed Vocabulary.xmlSchema "schema" then
    let ns := ((root.attr? "targetNamespace").or adopted).getD ""
    let items := Reported.collect (root.children.map (readItems location ns))
    .ok (items.map fun items => ofItems location ns (root.scope.prefixFor ns) items.flatten)
  else .error (.notSchema root.localName)

end TaxonomySet.Schema
