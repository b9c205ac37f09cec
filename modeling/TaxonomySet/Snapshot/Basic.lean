import TaxonomySet.Session

namespace TaxonomySet

/-- The contents of a taxonomy set, or of an extension. What is derived from the set is left out. An extension is
restored over the base that it was made for. -/
structure Snapshot where
  version : UInt32
  created : String
  mainNamespace : Option String
  /-- The main namespace of the base that this extends. -/
  baseNamespace : Option String
  taxonomies : List Taxonomy
  links : List ExtendedLink
  roleTypes : List RoleType
  arcroleTypes : List ArcroleType
deriving DecidableEq

namespace Snapshot

/-- The version of the format. -/
def currentVersion : UInt32 := 1

/-- The contents of a taxonomy set at a point in time. -/
def capture (d : Dts) (created : String) : Snapshot where
  version := currentVersion
  created := created
  mainNamespace := d.mainNamespace
  baseNamespace := none
  taxonomies := d.taxonomies
  links := d.links
  roleTypes := d.registry.roles.values
  arcroleTypes := d.registry.arcroles.values

/-- The new numbers of the links from documents that a base lacks. -/
def renumber (d : Dts) (base : Snapshot) : List (Nat × Nat) :=
  let added := d.links.zipIdx.filter fun l => !(base.links.any fun b => b.document == l.1.document)
  (added.map (·.2)).zipIdx

/-- A taxonomy whose records keep only links with a new number. -/
def renumbered (numbers : List (Nat × Nat)) (t : Taxonomy) : Taxonomy :=
  { t with linkbases := t.linkbases.map fun r => { r with links := r.links.filterMap fun i => numbers.lookup i } }

/-- Whether a role is declared as in a base. -/
def hasRole (base : Snapshot) (role : RoleType) : Bool :=
  (base.roleTypes.reverse.find? (·.uri == role.uri)).any (·.usedOn == role.usedOn)

/-- Whether an arcrole is declared as in a base. -/
def hasArcrole (base : Snapshot) (arcrole : ArcroleType) : Bool :=
  (base.arcroleTypes.reverse.find? (·.uri == arcrole.uri)).any (·.usedOn == arcrole.usedOn)

/-- What a taxonomy set adds to a base: the taxonomies of namespaces that the base lacks, the links
of documents that it lacks, and the roles and arcroles that it lacks or that it declares for other
elements. -/
def captureExtension (d : Dts) (base : Snapshot) (created : String) : Snapshot :=
  let added := d.taxonomies.filter fun t => !(base.taxonomies.any fun b => b.ns == t.ns)
  { capture d created with
    baseNamespace := base.mainNamespace
    taxonomies := added.map (renumbered (renumber d base))
    links := d.links.filter fun l => !(base.links.any fun b => b.document == l.document)
    roleTypes := d.registry.roles.values.filter fun r => !hasRole base r
    arcroleTypes := d.registry.arcroles.values.filter fun a => !hasArcrole base a }

/-- The report of a taxonomy that is left out because its namespace is there already. -/
def duplicateNamespace (t : Taxonomy) : Diagnostic :=
  (Diagnostic.warning .configuration "snapshot:duplicateNamespace"
    ("namespace " ++ t.ns ++ " already restored")).withField "document" t.location

/-- Adds a taxonomy whose links are counted from `offset`. -/
def addTaxonomy (offset : Nat) (acc : Reported Dts) (t : Taxonomy) : Reported Dts :=
  if acc.value.byNamespace.contains t.ns then
    ⟨acc.value, acc.diagnostics ++ [duplicateNamespace t]⟩
  else
    let shifted := { t with
      linkbases := t.linkbases.map fun r => { r with links := r.links.map (offset + ·) } }
    ⟨acc.value.addTaxonomy shifted, acc.diagnostics⟩

/-- Adds the contents of a snapshot to a taxonomy set. -/
def populate (s : Snapshot) (d : Dts) : Reported Dts :=
  let registered := d.registry.addAll s.roleTypes s.arcroleTypes
  let withLinks := { d with registry := registered.value }.addLinks s.links
  s.taxonomies.foldl (addTaxonomy d.links.length) ⟨withLinks, registered.diagnostics⟩

/-- Only snapshots of the current version can be restored. -/
def checkVersion (s : Snapshot) : Except Fault Unit :=
  if s.version = currentVersion then .ok () else .error (.snapshotVersion s.version.toNat)

/-- A session with the contents of snapshots, one over the other, and a main namespace. -/
def sessionOf (snapshots : List Snapshot) (mainNamespace : Option String) (journal : Journal) :
    Session :=
  let filled := snapshots.foldl (fun (acc : Reported Dts) s =>
    (populate s acc.value).after acc.diagnostics) ⟨{}, []⟩
  Session.finalize {
    dts := { filled.value with mainNamespace := mainNamespace }
    journal := journal.report filled.diagnostics }

/-- Restores a snapshot. -/
def restore (s : Snapshot) (journal : Journal) : Except Fault Session := do
  s.checkVersion
  return sessionOf [s] s.mainNamespace journal

/-- Restores an extension over the base that it was made for. -/
def restoreExtension (base extension : Snapshot) (journal : Journal) : Except Fault Session := do
  base.checkVersion
  extension.checkVersion
  if extension.baseNamespace ≠ base.mainNamespace then
    throw (.snapshotBase extension.baseNamespace base.mainNamespace)
  return sessionOf [base, extension] extension.mainNamespace journal

end Snapshot

end TaxonomySet
