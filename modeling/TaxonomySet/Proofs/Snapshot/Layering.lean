import TaxonomySet.Proofs.Dimension.Candidates
import TaxonomySet.Proofs.Discovery.Evaluation
import TaxonomySet.Proofs.Relationship.Effective
import TaxonomySet.Proofs.Snapshot.Restoring

namespace TaxonomySet

open Dimension

/-- Taxonomies that declare the same elements under the same ids in the same documents. -/
structure Taxonomy.Matches (t u : Taxonomy) : Prop where
  elements : t.elements = u.elements
  ids : t.ids = u.ids
  documents : t.documents = u.documents

instance (t u : Taxonomy) : Decidable (t.Matches u) :=
  decidable_of_iff (t.elements = u.elements ∧ t.ids = u.ids ∧ t.documents = u.documents)
    ⟨fun ⟨helements, hids, hdocuments⟩ => ⟨helements, hids, hdocuments⟩,
      fun ⟨helements, hids, hdocuments⟩ => ⟨helements, hids, hdocuments⟩⟩

namespace Dts

/-- Sets with the same links of each document and matching taxonomies of each namespace, whatever the order of the
documents and of the taxonomies. -/
structure Matches (d e : Dts) : Prop where
  links : Alike (·.document) d.links e.links
  taxonomy : ∀ ns, Option.Rel Taxonomy.Matches (d.taxonomyOf? ns) (e.taxonomyOf? ns)

/-- Whether a set contains a base: it has the same links of each document that the base has links of, and a matching
taxonomy of each namespace of the base. -/
structure Contains (e b : Dts) : Prop where
  links : ∀ l ∈ b.links,
    (b.links.filter fun k => k.document == l.document) = e.links.filter fun k => k.document == l.document
  taxonomy : ∀ t ∈ b.taxonomies, ∃ u ∈ e.taxonomies, u.ns = t.ns ∧ t.Matches u

instance (e b : Dts) : Decidable (e.Contains b) :=
  decidable_of_iff ((∀ l ∈ b.links, (b.links.filter fun k => k.document == l.document) =
      e.links.filter fun k => k.document == l.document) ∧
      ∀ t ∈ b.taxonomies, ∃ u ∈ e.taxonomies, u.ns = t.ns ∧ t.Matches u)
    ⟨fun ⟨hlinks, htaxonomy⟩ => ⟨hlinks, htaxonomy⟩, fun ⟨hlinks, htaxonomy⟩ => ⟨hlinks, htaxonomy⟩⟩

/-- Whether a taxonomy of a set keeps its links over a base. A taxonomy of a namespace of the base needs the links
that the base has there, in any order. Another one needs links of documents only that the base has no links of. -/
def KeepsLinks (e b : Dts) (u : Taxonomy) : Prop :=
  match b.taxonomyOf? u.ns with
  | some t => (b.linksOf t).Perm (e.linksOf u)
  | none => ∀ l ∈ e.linksOf u, ∀ k ∈ b.links, k.document ≠ l.document

theorem keepsLinks_of_some {e b : Dts} {t u : Taxonomy} (h : b.taxonomyOf? u.ns = some t) :
    e.KeepsLinks b u ↔ (b.linksOf t).Perm (e.linksOf u) := by
  unfold KeepsLinks
  rw [h]

theorem keepsLinks_of_none {e b : Dts} {u : Taxonomy} (h : b.taxonomyOf? u.ns = none) :
    e.KeepsLinks b u ↔ ∀ l ∈ e.linksOf u, ∀ k ∈ b.links, k.document ≠ l.document := by
  unfold KeepsLinks
  rw [h]

instance (e b : Dts) (u : Taxonomy) : Decidable (e.KeepsLinks b u) :=
  match h : b.taxonomyOf? u.ns with
  | some _ => decidable_of_iff _ (keepsLinks_of_some h).symm
  | none => decidable_of_iff _ (keepsLinks_of_none h).symm

theorem linksOf_subset (d : Dts) (t : Taxonomy) : d.linksOf t ⊆ d.links := by
  intro l hl
  obtain ⟨i, -, hi⟩ := List.mem_filterMap.1 hl
  exact List.mem_of_getElem? hi

theorem Matches.exists_taxonomy {d e : Dts} (h : d.Matches e) (hd : d.Indexed) (he : e.Indexed) {t : Taxonomy}
    (ht : t ∈ d.taxonomies) : ∃ u ∈ e.taxonomies, u.ns = t.ns ∧ t.Matches u := by
  have hrel := h.taxonomy t.ns
  rw [hd.taxonomyOf?_eq_some_iff.2 ⟨ht, rfl⟩] at hrel
  cases hu : e.taxonomyOf? t.ns with
  | none =>
    rw [hu] at hrel
    cases hrel
  | some u =>
    rw [hu, Option.rel_some_some] at hrel
    obtain ⟨hmem, hns⟩ := he.taxonomyOf?_eq_some_iff.1 hu
    exact ⟨u, hmem, hns, hrel⟩

theorem Matches.exists_counterpart {d e : Dts} (h : d.Matches e) (hd : d.Indexed) (he : e.Indexed) {u : Taxonomy}
    (hu : u ∈ e.taxonomies) : ∃ t ∈ d.taxonomies, t.Matches u := by
  have hrel := h.taxonomy u.ns
  rw [he.taxonomyOf?_eq_some_iff.2 ⟨hu, rfl⟩] at hrel
  cases ht : d.taxonomyOf? u.ns with
  | none =>
    rw [ht] at hrel
    cases hrel
  | some t =>
    rw [ht, Option.rel_some_some] at hrel
    exact ⟨t, (hd.taxonomyOf?_eq_some_iff.1 ht).1, hrel⟩

/-- References resolve alike in sets that match. -/
theorem Matches.resolve_eq {d e : Dts} (h : d.Matches e) (hd : d.Indexed)
    (hresources : d.resources = d.links.foldl indexResources ∅) (he : e.Consistent) : d.resolve = e.resolve := by
  refine resolve_congr hd hresources he h.links (fun t ht => ?_) fun u hu => ?_
  · obtain ⟨u, hu, -, hmatch⟩ := h.exists_taxonomy hd he.toIndexed ht
    exact ⟨u, hu, hmatch.elements, hmatch.ids, hmatch.documents⟩
  · obtain ⟨t, ht, hmatch⟩ := h.exists_counterpart hd he.toIndexed hu
    exact ⟨t, ht, hmatch.documents⟩

end Dts

namespace Snapshot.Layered

variable {b e r : Dts} (h : Layered b e r)

theorem lacksDocument_iff {l : ExtendedLink} : lacksDocument b l = true ↔ ∀ k ∈ b.links, k.document ≠ l.document := by
  simp [lacksDocument]

theorem lacksNamespace_iff {t : Taxonomy} : lacksNamespace b t = true ↔ ∀ u ∈ b.taxonomies, u.ns ≠ t.ns := by
  simp [lacksNamespace]

include h

theorem alike_links_iff : Alike (·.document) r.links e.links ↔ ∀ l ∈ b.links,
    (b.links.filter fun k => k.document == l.document) = e.links.filter fun k => k.document == l.document := by
  have hkept {l : ExtendedLink} (hl : l ∈ b.links) :
      ((e.links.filter (lacksDocument b)).filter fun k => k.document == l.document) = [] := by
    refine List.filter_eq_nil_iff.2 fun k hk heq => ?_
    exact lacksDocument_iff.1 (List.mem_filter.1 hk).2 l hl (beq_iff_eq.1 heq).symm
  rw [h.links]
  constructor
  · intro halike l hl
    have hdocument := halike l.document
    rwa [List.filter_append, hkept hl, List.append_nil] at hdocument
  · intro hsame document
    rw [List.filter_append]
    by_cases hdocument : ∃ l ∈ b.links, l.document = document
    · obtain ⟨l, hl, rfl⟩ := hdocument
      rw [hkept hl, List.append_nil, hsame l hl]
    · have hbase : (b.links.filter fun k => k.document == document) = [] :=
        List.filter_eq_nil_iff.2 fun k hk heq => hdocument ⟨k, hk, beq_iff_eq.1 heq⟩
      rw [hbase, List.nil_append, List.filter_filter]
      refine List.filter_congr fun k _ => ?_
      cases heq : k.document == document with
      | false => rfl
      | true =>
        rw [Bool.true_and, lacksDocument_iff]
        exact fun l hl hne => hdocument ⟨l, hl, hne.trans (beq_iff_eq.1 heq)⟩

theorem taxonomyOf?_of_mem {t : Taxonomy} (ht : t ∈ b.taxonomies) : r.taxonomyOf? t.ns = some t := by
  refine h.indexed.taxonomyOf?_eq_some_iff.2 ⟨?_, rfl⟩
  rw [h.taxonomies]
  exact List.mem_append_left _ ht

theorem taxonomyOf?_of_lacks (he : e.Indexed) {ns : String} (hns : ∀ t ∈ b.taxonomies, t.ns ≠ ns) :
    r.taxonomyOf? ns = (e.taxonomyOf? ns).map (moved b e) := by
  apply Option.ext
  intro t
  rw [h.indexed.taxonomyOf?_eq_some_iff, Option.map_eq_some_iff, h.taxonomies, List.mem_append, List.mem_map]
  constructor
  · rintro ⟨ht | ⟨u, hu, rfl⟩, rfl⟩
    · exact absurd rfl (hns t ht)
    · exact ⟨u, he.taxonomyOf?_eq_some_iff.2 ⟨List.mem_of_mem_filter hu, rfl⟩, rfl⟩
  · rintro ⟨u, hu, rfl⟩
    obtain ⟨hmem, rfl⟩ := he.taxonomyOf?_eq_some_iff.1 hu
    exact ⟨.inr ⟨u, List.mem_filter.2 ⟨hmem, lacksNamespace_iff.2 hns⟩, rfl⟩, rfl⟩

/-- Layers match the set that was layered exactly if that set contains the base: what was left out of it for its
documents and namespaces is then what the base has. -/
theorem matches_iff (he : e.Indexed) : r.Matches e ↔ e.Contains b := by
  constructor
  · intro hmatches
    refine ⟨h.alike_links_iff.1 hmatches.links, fun t ht => hmatches.exists_taxonomy h.indexed he ?_⟩
    rw [h.taxonomies]
    exact List.mem_append_left _ ht
  · rintro ⟨hlinks, htaxonomy⟩
    refine ⟨h.alike_links_iff.2 hlinks, fun ns => ?_⟩
    by_cases hns : ∃ t ∈ b.taxonomies, t.ns = ns
    · obtain ⟨t, ht, rfl⟩ := hns
      obtain ⟨u, hu, hns, hmatch⟩ := htaxonomy t ht
      rw [h.taxonomyOf?_of_mem ht, he.taxonomyOf?_eq_some_iff.2 ⟨hu, hns⟩]
      exact .some hmatch
    · rw [h.taxonomyOf?_of_lacks he fun t ht heq => hns ⟨t, ht, heq⟩]
      cases e.taxonomyOf? ns with
      | none => exact .none
      | some u => exact .some ⟨rfl, rfl, rfl⟩

/-- A taxonomy of the set that was layered has its links in the layers exactly if it keeps them over the base. -/
theorem exists_linksOf_iff (hb : b.Consistent) (he : e.Indexed) {u : Taxonomy} (hu : u ∈ e.taxonomies) :
    ∃ t, r.taxonomyOf? u.ns = some t ∧ ((r.linksOf t).Perm (e.linksOf u) ↔ e.KeepsLinks b u) := by
  cases hbase : b.taxonomyOf? u.ns with
  | some t =>
    obtain ⟨ht, hns⟩ := hb.taxonomyOf?_eq_some_iff.1 hbase
    refine ⟨t, hns ▸ h.taxonomyOf?_of_mem ht, ?_⟩
    rw [h.linksOf_base hb ht, Dts.keepsLinks_of_some hbase]
  | none =>
    have hlacks : ∀ t ∈ b.taxonomies, t.ns ≠ u.ns := fun t ht hns => by
      rw [hb.taxonomyOf?_eq_some_iff.2 ⟨ht, hns⟩] at hbase
      cases hbase
    refine ⟨moved b e u, ?_, ?_⟩
    · rw [h.taxonomyOf?_of_lacks he hlacks, he.taxonomyOf?_eq_some_iff.2 ⟨hu, rfl⟩, Option.map_some]
    · rw [h.linksOf_moved, Dts.keepsLinks_of_none hbase]
      constructor
      · intro hperm l hl
        exact lacksDocument_iff.1 (List.mem_filter.1 (hperm.mem_iff.2 hl)).2
      · intro hadded
        rw [List.filter_eq_self.2 fun l hl => lacksDocument_iff.2 (hadded l hl)]

end Snapshot.Layered

namespace Session

/-- The table of a role that is made of the links of one taxonomy alone. -/
def ownTable? (s : Session) (ns role : String) : Option Table :=
  (s.dts.byNamespace.get? ns).bind fun i => (s.index.tablesOf i).get? role

theorem ownTable?_eq {s : Session} (hindex : s.index = s.dts.index.value) (ns role : String) :
    s.ownTable? ns role =
      (s.dts.taxonomyOf? ns).bind fun t => (collect s.dts.resolve (s.dts.linksOf t)).get? role := by
  unfold ownTable? Dts.taxonomyOf?
  rw [hindex, Option.bind_assoc]
  refine congrArg (Option.bind _) (funext fun i => ?_)
  have htables : s.dts.index.value.tablesOf i =
      ((s.dts.taxonomies[i]?).map fun t => collect s.dts.resolve (s.dts.linksOf t)).getD ∅ := by
    rw [← List.getElem?_map]
    rfl
  rw [htables]
  cases s.dts.taxonomies[i]? <;> rfl

theorem network_eq {s : Session} (hindex : s.index = s.dts.index.value) :
    s.index.network = (Network.ofLinks s.dts.resolve s.dts.links).value := by
  rw [hindex]
  rfl

end Session

namespace Snapshot

/-- An extension that is made of the second of two loads is restored over the snapshot of the first. What is then
answered about a role or arcrole is what the second load answers exactly if that says all that the first one says.
Whatever is declared, the two sets match exactly if the second contains the first, and then they have the same
relationships but for the numbers of links. A taxonomy has the links that it has in the second load exactly if it keeps
them over the first; in sets that match it then has the same tables of its own but for the choice among ties. -/
theorem restoreExtension_of_load (store : Store) (baseOptions options : Discovery.Options)
    (baseEntries entries : List String) (baseJournal journal restoreJournal : Journal) (baseCreated created : String)
    {receipt : Discovery.Receipt}
    (hload : (Session.load { journal := journal } store options entries).2.2 = .ok receipt) :
    let b := (Session.load { journal := baseJournal } store baseOptions baseEntries).1
    let e := (Session.load { journal := journal } store options entries).1
    ∃ r, restoreExtension (capture b.dts baseCreated) (captureExtension e.dts (capture b.dts baseCreated) created)
        restoreJournal = .ok r ∧
      (∀ uri, r.dts.registry.roleAnswer? uri = e.dts.registry.roleAnswer? uri ↔
        e.dts.registry.KeepsRole b.dts.registry uri) ∧
      (∀ uri, r.dts.registry.arcroleAnswer? uri = e.dts.registry.arcroleAnswer? uri ↔
        e.dts.registry.KeepsArcrole b.dts.registry uri) ∧
      (r.dts.Matches e.dts ↔ e.dts.Contains b.dts) ∧
      (∀ u ∈ e.dts.taxonomies, ∃ t, r.dts.taxonomyOf? u.ns = some t ∧
        ((r.dts.linksOf t).Perm (e.dts.linksOf u) ↔ e.dts.KeepsLinks b.dts u)) ∧
      (e.dts.Contains b.dts →
        (∀ key, (r.index.network.relationships key).map Relationship.unlinked =
          (e.index.network.relationships key).map Relationship.unlinked) ∧
        ∀ u ∈ e.dts.taxonomies, e.dts.KeepsLinks b.dts u → ∀ role,
          Option.Rel Table.Alike (r.ownTable? u.ns role) (e.ownTable? u.ns role)) := by
  intro b e
  have hb : b.dts.Consistent := Session.consistent_load store baseOptions baseEntries baseJournal
  have he : e.dts.Consistent := Session.consistent_load store options entries journal
  have heindex : e.index = e.dts.index.value := Session.index_load hload
  obtain ⟨r, hr, hlayered, hrindex⟩ := restoreExtension_capture hb he baseCreated created restoreJournal
  refine ⟨r, hr, fun uri => ?_, fun uri => ?_, hlayered.matches_iff he.toIndexed,
    fun u hu => hlayered.exists_linksOf_iff hb he.toIndexed hu, fun hcontains => ?_⟩
  · unfold Registry.roleAnswer?
    rw [hlayered.role]
    exact RoleType.answer_overlay_iff
  · unfold Registry.arcroleAnswer?
    rw [hlayered.arcrole]
    exact ArcroleType.answer_overlay_iff
  have hmatches := (hlayered.matches_iff he.toIndexed).2 hcontains
  have hresolve := hmatches.resolve_eq hlayered.indexed hlayered.resources he
  refine ⟨fun key => ?_, fun u hu hkeeps role => ?_⟩
  · rw [Session.network_eq hrindex, Session.network_eq heindex, hresolve]
    exact Network.relationships_congr e.dts.resolve hmatches.links key
  · obtain ⟨t, ht, hlinks⟩ := hlayered.exists_linksOf_iff hb he.toIndexed hu
    rw [Session.ownTable?_eq hrindex, Session.ownTable?_eq heindex, ht, he.taxonomyOf?_eq_some_iff.2 ⟨hu, rfl⟩,
      hresolve]
    exact collect_perm e.dts.resolve (hlinks.2 hkeeps) role

end Snapshot

namespace Sample

/-- The base set of the domain-member arcs in definition links of a role. -/
def memberKey (role : String) : BaseSetKey :=
  ⟨.definition, role, "http://xbrl.org/int/dim/arcrole/domain-member"⟩

/-- Whether the links of a set make a relationship of that base set that prevails. -/
def Shows (d : Dts) (role : String) : Prop :=
  ∃ x ∈ (memberKey role).arising d.resolve d.links, x.Prevails ((memberKey role).arising d.resolve d.links)

instance (d : Dts) (role : String) : Decidable (Shows d role) := inferInstanceAs (Decidable (∃ x ∈ _, _))

theorem Shows.relationships_ne_nil {d : Dts} {role : String} (h : Shows d role) :
    (Network.ofLinks d.resolve d.links).value.relationships (memberKey role) ≠ [] := by
  obtain ⟨x, hx, hprevails⟩ := h
  exact List.ne_nil_of_mem (Network.mem_relationships_iff.2 ⟨hx, hprevails⟩)

/-- The second schema has the arc with another order. -/
def reordered : List (String × String) := repeating " order=\"2\""

set_option maxRecDepth 100000 in
theorem loads_reordered :
    (∃ receipt, (Session.load {} (Shelf.ofTexts reordered).store {} ["a.xsd"]).2.2 = .ok receipt) ∧
    (∃ receipt, (Session.load {} (Shelf.ofTexts reordered).store {} ["b.xsd"]).2.2 = .ok receipt) ∧
    let b := (Session.load {} (Shelf.ofTexts reordered).store {} ["a.xsd"]).1.dts
    let e := (Session.load {} (Shelf.ofTexts reordered).store {} ["b.xsd"]).1.dts
    b.links.map (·.document) = ["l.xml"] ∧ e.links.map (·.document) = ["m.xml", "l.xml"] ∧
      e.registry = b.registry ∧ e.Contains b ∧ (∀ u ∈ e.taxonomies, e.KeepsLinks b u) ∧
      Shows e "http://www.xbrl.org/2003/role/link" := by
  refine loads_ofTexts reordered (fun b e => b.links.map (·.document) = _ ∧ e.links.map (·.document) = _ ∧
    e.registry = b.registry ∧ e.Contains b ∧ (∀ u ∈ e.taxonomies, e.KeepsLinks b u) ∧ Shows e _) 5 ?_ ?_
  all_goals
    unfold reordered repeating memberSchema linkbaseOf memberLink linkbaseRef
    simp only [List.map_cons, List.map_nil]
    repeat rw [String.toList_append]
    repeat rw [String.toList_ofList]
    decide +kernel

end Sample

namespace Snapshot

/-- The schema that imports the other one, restored over it, gives what loading it gives. -/
theorem restoreExtension_reordered :
    let store := (Shelf.ofTexts Sample.reordered).store
    let b := (Session.load {} store {} ["a.xsd"]).1
    let e := (Session.load {} store {} ["b.xsd"]).1
    (∃ receipt, (Session.load {} store {} ["b.xsd"]).2.2 = .ok receipt) ∧
    b.dts.links.map (·.document) = ["l.xml"] ∧ e.dts.links.map (·.document) = ["m.xml", "l.xml"] ∧
    (∃ key, e.index.network.relationships key ≠ []) ∧
    ∃ r, restoreExtension (capture b.dts "") (captureExtension e.dts (capture b.dts "") "") {} = .ok r ∧
      (∀ uri, r.dts.registry.roleAnswer? uri = e.dts.registry.roleAnswer? uri) ∧
      (∀ uri, r.dts.registry.arcroleAnswer? uri = e.dts.registry.arcroleAnswer? uri) ∧
      r.dts.Matches e.dts ∧
      (∀ key, (r.index.network.relationships key).map Relationship.unlinked =
        (e.index.network.relationships key).map Relationship.unlinked) ∧
      ∀ u ∈ e.dts.taxonomies, ∀ role, Option.Rel Table.Alike (r.ownTable? u.ns role) (e.ownTable? u.ns role) := by
  dsimp only
  obtain ⟨-, ⟨receipt, hload⟩, hbdocuments, hedocuments, hregistry, hcontains, hkeeps, hshows⟩ :=
    Sample.loads_reordered
  obtain ⟨r, hr, hrole, harcrole, hmatches, -, hderived⟩ :=
    restoreExtension_of_load _ {} {} ["a.xsd"] ["b.xsd"] {} {} {} "" "" hload
  obtain ⟨hrelationships, htables⟩ := hderived hcontains
  have hshown := hshows.relationships_ne_nil
  rw [← Session.network_eq (Session.index_load hload)] at hshown
  refine ⟨⟨receipt, hload⟩, hbdocuments, hedocuments, ⟨_, hshown⟩, r, hr, fun uri => (hrole uri).2 ?_,
    fun uri => (harcrole uri).2 ?_, hmatches.2 hcontains, hrelationships, fun u hu => htables u hu (hkeeps u hu)⟩
  · rw [hregistry]
    exact .refl _ uri
  · rw [hregistry]
    exact .refl _ uri

end Snapshot

namespace Sample

/-- A schema whose linkbase has a link in a role that nothing declares, and another one that declares the role and
refers to the same linkbase. Both declare one more role, which only the second one defines. -/
def undeclared : List (String × String) := [
  ("a.xsd", memberSchema (roleType "s" "" ++ linkbaseRef "l.xml")),
  ("l.xml", linkbaseOf (memberLink "http://www.xbrl.org/2003/role/link" "" ++ memberLink "r" "")),
  ("e.xsd", annotatedSchema "e" (roleType "s" "<definition>d</definition>" ++
    roleType "r" "<usedOn xmlns:k=\"http://www.xbrl.org/2003/linkbase\">k:definitionLink</usedOn>" ++
    linkbaseRef "l.xml"))]

/-- Whether the links of a taxonomy of a namespace make a table of a role. -/
def HasTable (d : Dts) (ns role : String) : Prop :=
  ∃ u ∈ d.taxonomies, u.ns = ns ∧ ((collect d.resolve (d.linksOf u)).get? role).isSome = true

instance (d : Dts) (ns role : String) : Decidable (HasTable d ns role) :=
  inferInstanceAs (Decidable (∃ u ∈ d.taxonomies, _))

set_option maxRecDepth 100000 in
/-- The first schema alone leaves the link out, for its role is not declared. -/
theorem loads_undeclared :
    (∃ receipt, (Session.load {} (Shelf.ofTexts undeclared).store {} ["a.xsd"]).2.2 = .ok receipt) ∧
    (∃ receipt, (Session.load {} (Shelf.ofTexts undeclared).store {} ["e.xsd", "a.xsd"]).2.2 = .ok receipt) ∧
    let b := (Session.load {} (Shelf.ofTexts undeclared).store {} ["a.xsd"]).1.dts
    let e := (Session.load {} (Shelf.ofTexts undeclared).store {} ["e.xsd", "a.xsd"]).1.dts
    (∀ t ∈ b.taxonomies, ∃ u ∈ e.taxonomies, u.ns = t.ns ∧ t.Matches u) ∧
      (∀ l ∈ b.links, ∃ k ∈ e.links, k.document = l.document) ∧
      (∀ l ∈ b.links, l.role ≠ "r") ∧ (∀ k ∈ e.links, ∃ l ∈ b.links, l.document = k.document) ∧
      b.taxonomies.map (·.ns) = ["a"] ∧ ¬ e.registry.KeepsRole b.registry "s" ∧ Shows e "r" ∧
      HasTable e "a" "r" ∧ HasTable e "e" "http://www.xbrl.org/2003/role/link" := by
  refine loads_ofTexts undeclared (fun b e => (∀ t ∈ b.taxonomies, ∃ u ∈ e.taxonomies, u.ns = t.ns ∧ t.Matches u) ∧
    (∀ l ∈ b.links, ∃ k ∈ e.links, k.document = l.document) ∧
    (∀ l ∈ b.links, l.role ≠ "r") ∧ (∀ k ∈ e.links, ∃ l ∈ b.links, l.document = k.document) ∧
    b.taxonomies.map (·.ns) = _ ∧ ¬ e.registry.KeepsRole b.registry "s" ∧ Shows e "r" ∧
    HasTable e "a" "r" ∧ HasTable e "e" "http://www.xbrl.org/2003/role/link") 5 ?_ ?_
  all_goals
    unfold undeclared annotatedSchema roleType memberSchema linkbaseOf memberLink linkbaseRef
    simp only [List.map_cons, List.map_nil]
    repeat rw [String.toList_append]
    repeat rw [String.toList_ofList]
    decide +kernel

end Sample

namespace Snapshot

/-- A taxonomy that has a table of a role has lost it if the layers have no link of the role there. -/
theorem Layered.not_alike_ownTable? {b : Dts} {e r : Session} (h : Layered b e.dts r.dts)
    (hrindex : r.index = r.dts.index.value) (heindex : e.index = e.dts.index.value) (hb : b.Consistent)
    (he : e.dts.Consistent) {ns role : String} (htable : Sample.HasTable e.dts ns role)
    (hlinks : ∀ t, r.dts.taxonomyOf? ns = some t → ∀ l ∈ r.dts.linksOf t, l.role ≠ role) :
    ¬ Option.Rel Table.Alike (r.ownTable? ns role) (e.ownTable? ns role) := by
  obtain ⟨u, hu, rfl, htable⟩ := htable
  obtain ⟨t, ht, -⟩ := h.exists_linksOf_iff hb he.toIndexed hu
  obtain ⟨table, htable⟩ := Option.isSome_iff_exists.1 htable
  rw [Session.ownTable?_eq hrindex, Session.ownTable?_eq heindex, he.taxonomyOf?_eq_some_iff.2 ⟨hu, rfl⟩, ht,
    Option.bind_some, Option.bind_some, get?_collect_of_forall_ne _ (hlinks t ht), htable]
  exact Option.not_rel_none_some

/-- Restoring loses the link in the role that only the second schema declares and the definition that only this one
gives. The second schema loses the links of the linkbase that it shares with the first one. -/
theorem restoreExtension_undeclared :
    let store := (Shelf.ofTexts Sample.undeclared).store
    let b := (Session.load {} store {} ["a.xsd"]).1
    let e := (Session.load {} store {} ["e.xsd", "a.xsd"]).1
    (∃ receipt, (Session.load {} store {} ["a.xsd"]).2.2 = .ok receipt) ∧
    (∃ receipt, (Session.load {} store {} ["e.xsd", "a.xsd"]).2.2 = .ok receipt) ∧
    (∀ t ∈ b.dts.taxonomies, ∃ u ∈ e.dts.taxonomies, u.ns = t.ns ∧ t.Matches u) ∧
    (∀ l ∈ b.dts.links, ∃ k ∈ e.dts.links, k.document = l.document) ∧
    ∃ r, restoreExtension (capture b.dts "") (captureExtension e.dts (capture b.dts "") "") {} = .ok r ∧
      (∃ key, (r.index.network.relationships key).map Relationship.unlinked ≠
        (e.index.network.relationships key).map Relationship.unlinked) ∧
      (∃ uri, r.dts.registry.roleAnswer? uri ≠ e.dts.registry.roleAnswer? uri) ∧
      (∃ role, ¬ Option.Rel Table.Alike (r.ownTable? "a" role) (e.ownTable? "a" role)) ∧
      ∃ role, ¬ Option.Rel Table.Alike (r.ownTable? "e" role) (e.ownTable? "e" role) := by
  obtain ⟨hbase, ⟨receipt, hload⟩, htaxonomies, hdocuments, hroles, hknown, hns, hdefinition, hshows, hown, hother⟩ :=
    Sample.loads_undeclared
  have hb := Session.consistent_load (Shelf.ofTexts Sample.undeclared).store {} ["a.xsd"] {}
  have he := Session.consistent_load (Shelf.ofTexts Sample.undeclared).store {} ["e.xsd", "a.xsd"] {}
  have heindex := Session.index_load hload
  dsimp only
  refine ⟨hbase, ⟨receipt, hload⟩, htaxonomies, hdocuments, ?_⟩
  generalize (Session.load {} (Shelf.ofTexts Sample.undeclared).store {} ["a.xsd"]).1.dts = b at *
  generalize (Session.load {} (Shelf.ofTexts Sample.undeclared).store {} ["e.xsd", "a.xsd"]).1 = e at *
  obtain ⟨r, hr, hlayered, hrindex⟩ := restoreExtension_capture hb he "" "" {}
  have hnone : e.dts.links.filter (lacksDocument b) = [] := List.filter_eq_nil_iff.2 fun k hk hlacks => by
    obtain ⟨l, hl, hdocument⟩ := hknown k hk
    exact Layered.lacksDocument_iff.1 hlacks l hl hdocument
  have hlinks : ∀ l ∈ r.dts.links, l.role ≠ "r" := by
    rw [hlayered.links, hnone, List.append_nil]
    exact hroles
  refine ⟨r, hr, ⟨Sample.memberKey "r", ?_⟩, ⟨"s", ?_⟩, ⟨"r", ?_⟩, ⟨"http://www.xbrl.org/2003/role/link", ?_⟩⟩
  · rw [Session.network_eq hrindex, Session.network_eq heindex, Network.relationships_eq_nil _ hlinks, List.map_nil]
    exact fun hnil => hshows.relationships_ne_nil (List.map_eq_nil_iff.1 hnil.symm)
  · unfold Registry.roleAnswer?
    rw [hlayered.role]
    exact mt RoleType.answer_overlay_iff.1 hdefinition
  · exact hlayered.not_alike_ownTable? hrindex heindex hb he hown fun t _ l hl => hlinks l (Dts.linksOf_subset _ t hl)
  · refine hlayered.not_alike_ownTable? hrindex heindex hb he hother fun t ht l hl => ?_
    have hlacks : ∀ t ∈ b.taxonomies, t.ns ≠ "e" := fun t ht heq => by
      have hmem := List.mem_map_of_mem (f := Taxonomy.ns) ht
      rw [hns, heq] at hmem
      exact absurd hmem (by decide)
    rw [hlayered.taxonomyOf?_of_lacks he.toIndexed hlacks, Option.map_eq_some_iff] at ht
    obtain ⟨u, -, rfl⟩ := ht
    rw [hlayered.linksOf_moved] at hl
    obtain ⟨hl, hlacking⟩ := List.mem_filter.1 hl
    exact absurd hlacking (List.filter_eq_nil_iff.1 hnone l (Dts.linksOf_subset _ u hl))

end Snapshot

end TaxonomySet
