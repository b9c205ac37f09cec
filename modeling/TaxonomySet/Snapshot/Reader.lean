import TaxonomySet.Json.Reader
import TaxonomySet.Snapshot.Timestamp
import TaxonomySet.Snapshot.Writer

namespace TaxonomySet.Snapshot

open Json

/-- A qualified name. -/
def readName? (j : Json) : Option QName := do
  let [ns, localName] ← fields? ["namespace", "local_name"] j | none
  return ⟨← required string? ns, ← required string? localName⟩

/-- A kind of link. -/
def readKind? : Json → Option LinkKind
  | object [("Custom", j)] => (readName? j).map .custom
  | j => word? kindWords j

/-- The flag that a name means, or the flags of a hexadecimal number. -/
def flag? (name : String) : Option Flags :=
  match Text.afterStart? "0x" name with
  | some digits =>
    let ds := (Numeral.splitSign digits.toList).2
    if Text.startsWith "-" digits then none
    else (Markup.digitsValue? 16 ds).bind fun n => if n < UInt32.size then some ⟨BitVec.ofNat 32 n⟩ else none
  | none => Flags.ofName? name

/-- Flags by name, separated by bars. -/
def readFlags? (s : String) : Option Flags :=
  let text := Text.trim s
  if text.isEmpty then some .none
  else ((Text.pieces '|' text.toList).mapM fun name =>
    flag? (Text.trim (String.ofList name))).map (·.foldl Flags.union .none)

/-- A set of elements that a role is used on. -/
def readUsedOn? (j : Json) : Option UsedOn := do
  let [flags, custom] ← fields? ["flags", "custom"] j | none
  return ⟨← required (fun j => j.string?.bind readFlags?) flags,
    .ofList (← required (listOf? readName?) custom)⟩

/-- The declaration of a role. -/
def readRoleType? (j : Json) : Option RoleType := do
  let [uri, id, definition, usedOn, document] ←
    fields? ["uri", "id", "definition", "used_on", "document"] j | none
  return {
    uri := ← required string? uri
    id := ← optional string? id
    definition := ← optional string? definition
    usedOn := ← required readUsedOn? usedOn
    document := ← required string? document }

/-- The declaration of an arcrole. -/
def readArcroleType? (j : Json) : Option ArcroleType := do
  let [uri, id, definition, usedOn, cycles, document] ←
    fields? ["uri", "id", "definition", "used_on", "cycles_allowed", "document"] j | none
  return {
    uri := ← required string? uri
    id := ← optional string? id
    definition := ← optional string? definition
    usedOn := ← required readUsedOn? usedOn
    cycles := ← required (word? cyclesWords) cycles
    document := ← required string? document }

/-- An element. -/
def readElement? (j : Json) : Option Element := do
  let [id, name, typeName, group, isAbstract, nillable, periodType, balance, typedDomain, document] ←
    fields? ["id", "name", "type_name", "substitution_group", "is_abstract", "nillable", "period_type",
      "balance", "typed_domain_ref", "document"] j | none
  return {
    id := ← optional string? id
    name := ← required readName? name
    typeName := ← optional readName? typeName
    group := ← optional readName? group
    isAbstract := ← required bool? isAbstract
    nillable := ← required bool? nillable
    periodType := ← optional (word? periodWords) periodType
    balance := ← optional (word? balanceWords) balance
    typedDomain := ← optional string? typedDomain
    document := ← required string? document }

/-- A type. -/
def readTypeDef? (j : Json) : Option TypeDef := do
  let [name, base] ← fields? ["name", "base"] j | none
  return ⟨← required readName? name, ← optional readName? base⟩

/-- A record of a linkbase. -/
def readRecord? (j : Json) : Option LinkbaseRecord := do
  let [location, role, embedded, links] ← fields? ["location", "role", "embedded", "links"] j | none
  return {
    location := ← required string? location
    role := ← optional string? role
    embedded := ← required bool? embedded
    links := ← required (listOf? (natBelow? UInt64.size)) links }

/-- A taxonomy. -/
def readTaxonomy? (j : Json) : Option Taxonomy := do
  let [ns, location, nsPrefix, documents, imports, includes, elements, ids, types, roleTypes,
      arcroleTypes, linkbases] ←
    fields? ["namespace", "location", "prefix", "documents", "imports", "includes", "elements",
      "id_index", "types", "role_types", "arcrole_types", "linkbases"] j | none
  return {
    ns := ← required string? ns
    location := ← required string? location
    nsPrefix := ← optional string? nsPrefix
    documents := ← required stringSet? documents
    imports := ← required stringSet? imports
    includes := ← required stringSet? includes
    elements := ← required (mapOf? readElement?) elements
    ids := ← required (mapOf? string?) ids
    types := ← required (mapOf? readTypeDef?) types
    roleTypes := ← required (listOf? readRoleType?) roleTypes
    arcroleTypes := ← required (listOf? readArcroleType?) arcroleTypes
    linkbases := ← required (listOf? readRecord?) linkbases }

/-- A reference to a place in a document. -/
def readHref? (j : Json) : Option Href := do
  let [document, fragment] ← fields? ["document", "fragment"] j | none
  return ⟨← required string? document, ← optional string? fragment⟩

/-- A resource. -/
def readResource? (j : Json) : Option Resource := do
  let [label, element, role, lang, id, text] ←
    fields? ["label", "element", "role", "lang", "id", "text"] j | none
  return {
    label := ← required string? label
    element := ← required readName? element
    role := ← optional string? role
    lang := ← optional string? lang
    id := ← optional string? id
    text := ← required string? text }

/-- An integer of 32 bits. -/
def readInt32? (j : Json) : Option Int32 :=
  j.integer?.bind fun n =>
    if Int32.minValue.toInt ≤ n ∧ n ≤ Int32.maxValue.toInt then some (Int32.ofInt n) else none

/-- An arc. -/
def readArc? (j : Json) : Option Arc := do
  let [element, arcrole, source, target, priority, use, order, weight, preferredLabel, targetRole,
      closed, contextElement, usable, attributes] ←
    fields? ["element", "arcrole", "from", "to", "priority", "usage", "order", "weight",
      "preferred_label", "target_role", "closed", "context_element", "usable", "attributes"] j | none
  return {
    element := ← required readName? element
    arcrole := ← required string? arcrole
    source := ← required string? source
    target := ← required string? target
    priority := ← required readInt32? priority
    use := ← required (word? useWords) use
    order := ← required number? order
    weight := ← optional number? weight
    preferredLabel := ← optional string? preferredLabel
    targetRole := ← optional string? targetRole
    closed := ← optional bool? closed
    contextElement := ← optional string? contextElement
    usable := ← optional bool? usable
    attributes := ← required (mapOf? string?) attributes }

/-- An extended link. -/
def readLink? (j : Json) : Option ExtendedLink := do
  let [kind, element, role, document, locators, resources, arcs] ←
    fields? ["kind", "element", "role", "document", "locators", "resources", "arcs"] j | none
  return {
    kind := ← required readKind? kind
    element := ← required readName? element
    role := ← required string? role
    document := ← required string? document
    locators := ← required (mapOf? (listOf? readHref?)) locators
    resources := ← required (mapOf? (listOf? readResource?)) resources
    arcs := ← required (mapOf? (mapOf? (listOf? readArc?))) arcs }

/-- A point in time. -/
def readTimestamp? (j : Json) : Option String :=
  j.string?.bind fun s => if Timestamp.isTimestamp s then some s else none

/-- A snapshot. A value that lacks anything that a snapshot needs is none. -/
def read? (j : Json) : Option Snapshot := do
  let [version, created, mainNamespace, baseNamespace, taxonomies, links, roleTypes, arcroleTypes] ←
    fields? ["format_version", "created", "main_namespace", "base_taxonomy", "nodes", "links",
      "role_types", "arcrole_types"] j | none
  return {
    version := .ofNat (← required (natBelow? UInt32.size) version)
    created := ← required readTimestamp? created
    mainNamespace := ← optional string? mainNamespace
    baseNamespace := ← optional string? baseNamespace
    taxonomies := ← required (listOf? readTaxonomy?) taxonomies
    links := ← required (listOf? readLink?) links
    roleTypes := ← required (listOf? readRoleType?) roleTypes
    arcroleTypes := ← required (listOf? readArcroleType?) arcroleTypes }

/-- The snapshot that a text writes. -/
def load (text : String) : Except Fault Snapshot :=
  match (Json.parse? text).bind read? with
  | some s => .ok s
  | none => .error .snapshotText

end TaxonomySet.Snapshot
