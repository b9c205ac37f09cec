import TaxonomySet.Dts.Basic
import TaxonomySet.Link.Reader
import TaxonomySet.Schema.Reader
import TaxonomySet.Store

namespace TaxonomySet

open Markup

/-- Why a schema is read. -/
inductive Origin where
  | entry
  | importing
  /-- On behalf of the taxonomy with a number, into which it is included. -/
  | including (taxonomy : Nat)
  | locator
deriving DecidableEq, Repr

/-- A schema to be read. -/
structure Pending where
  location : String
  origin : Origin
  isNormal : Location.normalize location = location

/-- A schema to be read from the normal form of a location. -/
def Pending.of (location : String) (origin : Origin) : Pending :=
  ⟨Location.normalize location, origin, Location.normalize_normalize location⟩

/-- What has been discovered so far. -/
structure Discovery where
  dts : Dts
  journal : Journal
  /-- The locations taken as linkbases. -/
  loaded : SortedSet String := ∅
  /-- The schemas that hold linkbases, by location. -/
  embedded : SortedMap String Node := ∅
  /-- The locations read, in order. -/
  asked : List String := []

namespace Discovery

/-- Enters diagnostics. -/
def report (d : Discovery) (ds : List Diagnostic) : Discovery :=
  { d with journal := d.journal.report ds }

/-- Notes that a location is read. -/
def ask (d : Discovery) (location : String) : Discovery := { d with asked := d.asked ++ [location] }

/-- The report of a document that is left out because it could not be read or understood. -/
def unreadable (location : String) (f : Fault) : Diagnostic :=
  let (concern, code) : Concern × String := match f.family with
    | .parse => (.structural, "dts:unparsableDocument")
    | _ => (.reference, "dts:documentNotFound")
  (Diagnostic.error concern code (location ++ " skipped: " ++ f.message)).withField "document" location

/-- The report of a document that was taken for a schema. -/
def notSchema (location : String) (f : DocumentFault) : Diagnostic :=
  (Diagnostic.error .structural "dts:notASchema" (Fault.document location f).message).withField
    "document" location

/-- The schemas that a schema of a taxonomy names. -/
def pendingOf (s : Schema) (taxonomy : Nat) : List Pending :=
  (s.imports.map fun i => .of i.location .importing) ++
    s.includes.map fun l => .of l (.including taxonomy)

/-- Adds what a schema declares to a taxonomy. -/
def addSchema (d : Discovery) (taxonomy : Nat) (s : Schema) (root : Node) : Discovery :=
  let registered := d.dts.registry.addAll s.roleTypes s.arcroleTypes
  let d := { d.report registered.diagnostics with
    dts := { d.dts with registry := registered.value }
    embedded := if s.hasLinkbases then d.embedded.insert s.location root else d.embedded }
  match d.dts.taxonomies[taxonomy]? with
  | none => d
  | some t =>
    let added := t.addSchema s
    { d.report added.diagnostics with
      dts := d.dts.modifyTaxonomy taxonomy fun _ => added.value }

/-- Takes a document in as a schema: the number of its taxonomy, and the schemas that it names. An
included schema joins the taxonomy that includes it. Of other schemas only the first of each
namespace counts, and the rest are known as documents of its taxonomy. -/
def enter (d : Discovery) (location : String) (origin : Origin) (root : Node) :
    Except DocumentFault (Discovery × Nat × List Pending) :=
  let adopted := match origin with
    | .including taxonomy => d.dts.taxonomies[taxonomy]?.map (·.ns)
    | _ => none
  match Schema.read location adopted root with
  | .error f => .error f
  | .ok ⟨s, diagnostics⟩ =>
    let d := d.report diagnostics
    match origin, d.dts.byNamespace.get? s.ns with
    | .including taxonomy, _ =>
      .ok (addSchema { d with dts := d.dts.registerLocation location taxonomy } taxonomy s root,
        taxonomy, pendingOf s taxonomy)
    | _, some existing =>
      .ok ({ d with dts := d.dts.registerLocation location existing }, existing, [])
    | _, none =>
      let taxonomy := d.dts.taxonomies.length
      .ok (addSchema { d with dts := d.dts.addTaxonomy (.start s.ns location s.nsPrefix) } taxonomy s
        root, taxonomy, pendingOf s taxonomy)

/-- Takes a document in as a schema, unless it is none. That is reported, except for documents that
a locator points into. -/
def enterPending (d : Discovery) (p : Pending) (root : Node) : Discovery × List Pending :=
  match d.enter p.location p.origin root with
  | .ok (d, _, more) => (d, more)
  | .error f =>
    (match p.origin with
      | .locator => d
      | _ => d.report [notSchema p.location f], [])

/-- The locations of linkbases that have not been taken yet, each once and with a note whether the
linkbase stands in a schema. -/
def unloaded (d : Discovery) : List (String × Bool) :=
  let records : List (String × Bool) :=
    d.dts.taxonomies.flatMap fun t => t.linkbases.map fun r => (r.location, r.embedded)
  (records.filter fun r => !d.loaded.contains r.1).eraseDupsBy fun a b => a.1 == b.1

/-- Reads a linkbase into a tree. -/
def readTree (store : Store) (d : Discovery) (location : String) (embedded : Bool) :
    Discovery × Option Node :=
  if embedded then (d, d.embedded.get? location)
  else
    match store.document location with
    | .ok root => (d.ask location, some root)
    | .error f => ((d.ask location).report [unreadable location f], none)

/-- Reads linkbases into trees, as far as they can be read. -/
def readTrees (store : Store) (d : Discovery) :
    List (String × Bool) → Discovery × List (String × Node)
  | [] => (d, [])
  | (location, embedded) :: rest =>
    let (d, tree) := d.readTree store location embedded
    let (d, trees) := d.readTrees store rest
    (d, (tree.map (location, ·)).toList ++ trees)

/-- Takes all linkbases that have not been taken yet. -/
def takeLinkbases (store : Store) (d : Discovery) : Discovery × List (String × Node) :=
  readTrees store { d with loaded := d.loaded.insertAll (d.unloaded.map (·.1)) } d.unloaded

/-- Whether an element refers to a document that belongs to the set. -/
def isReference (n : Node) : Bool :=
  n.isNamed Vocabulary.link "roleRef" || n.isNamed Vocabulary.link "arcroleRef" ||
    n.xlink? "type" == some "locator"

/-- The documents that the elements of a linkbase refer to, each once. -/
def referenced (location : String) (tree : Node) : List String :=
  ((tree.descendants.filter isReference).filterMap fun n =>
    (n.xlink? "href").bind fun href =>
      let document := (Location.splitFragment href).1
      if document.isEmpty then none else some (Location.resolve location document)).eraseDups

/-- The documents that linkbases refer to and that are in the set neither as schemas nor as
linkbases. -/
def targets (d : Discovery) (seen : SortedSet String) (trees : List (String × Node)) : List Pending :=
  trees.flatMap fun (location, tree) =>
    ((referenced location tree).filter fun l => !seen.contains l && !d.loaded.contains l).map fun l =>
      .of l .locator

/-- Adds the links of a linkbase. -/
def addLinkbase (d : Discovery) (linkbase : String × Node) : Discovery :=
  let links := ExtendedLink.readAll d.dts.registry linkbase.1 linkbase.2
  { d.report links.diagnostics with dts := d.dts.addLinkbase linkbase.1 links.value }

/-- Adds the links of several linkbases. -/
def addLinkbases (d : Discovery) (linkbases : List (String × Node)) : Discovery :=
  linkbases.foldl addLinkbase d

end Discovery

end TaxonomySet
