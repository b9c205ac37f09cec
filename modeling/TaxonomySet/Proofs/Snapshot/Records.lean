import TaxonomySet.Proofs.Discovery.OwnTables
import TaxonomySet.Proofs.Snapshot.Layering

namespace TaxonomySet

namespace Dts

/-- Whether the records refer to links of their own linkbases only. -/
def Located (d : Dts) : Prop :=
  ∀ t ∈ d.taxonomies, ∀ r ∈ t.linkbases, ∀ x ∈ r.links, x ∈ d.linksIn r.location

theorem mem_linksIn {d : Dts} {document : String} {x : Nat} :
    x ∈ d.linksIn document ↔ ∃ l, d.links[x]? = some l ∧ l.document = document := by
  unfold linksIn
  simp only [List.mem_map, List.mem_filter, beq_iff_eq]
  constructor
  · rintro ⟨⟨l, _⟩, ⟨hmem, hdocument⟩, rfl⟩
    exact ⟨l, List.mem_zipIdx_iff_getElem?.1 hmem, hdocument⟩
  · rintro ⟨l, hl, hdocument⟩
    exact ⟨(l, x), ⟨List.mem_zipIdx_iff_getElem?.2 hl, hdocument⟩, rfl⟩

theorem located_iff {d : Dts} :
    d.Located ↔ ∀ i j r, d.record? i j = some r → ∀ x ∈ r.links, x ∈ d.linksIn r.location := by
  constructor
  · intro h i j r hr
    obtain ⟨t, ht, hj⟩ := record?_eq_some_iff.1 hr
    exact h t (List.mem_of_getElem? ht) r (List.mem_of_getElem? hj)
  · intro h t ht r hr
    obtain ⟨i, j, hrecord⟩ := exists_record? ht hr
    exact h i j r hrecord

end Dts

namespace Discovery

theorem Widens.located {d e : Discovery} (h : Widens d e) (hd : d.dts.Located) : e.dts.Located := by
  refine Dts.located_iff.2 fun i j r hr x hx => ?_
  rcases h.adds hr with hold | ⟨-, hnil⟩
  · unfold Dts.linksIn
    rw [h.links]
    exact Dts.located_iff.1 hd i j r hold x hx
  · rw [hnil] at hx
    cases hx

theorem located_addLinkbases {d : Discovery} (h : d.dts.Located) (linkbases : List (String × Markup.Node)) :
    (d.addLinkbases linkbases).dts.Located := by
  obtain ⟨new, -, hlinks, hrecord⟩ := record?_addLinkbases d linkbases
  refine Dts.located_iff.2 fun i j r hr x hx => ?_
  obtain ⟨before, hbefore, rfl⟩ := Option.map_eq_some_iff.1 ((hrecord i j).symm.trans hr)
  rw [hlinks]
  exact (List.mem_append.1 hx).elim
    (fun hold => List.mem_append_left _ (Dts.located_iff.1 h i j before hbefore x hold)) (List.mem_append_right _)

theorem located_round {store : Store} {locators : Bool} {seen : SortedSet String} {d : Discovery}
    (h : d.dts.Located) : (round store locators seen d).2.dts.Located := by
  obtain ⟨hdts, -, -⟩ := takeLinkbases_fst store d
  exact located_addLinkbases ((widens_drain store seen (d.takeLinkbases store).1 _).located (hdts ▸ h)) _

/-- After a load the records refer to links of their own linkbases only. -/
theorem located_load {store : Store} {options : Options} {entries : List String} {journal : Journal}
    {receipt : Receipt} (h : (load store options entries { dts := {}, journal := journal }).2 = .ok receipt) :
    (load store options entries { dts := {}, journal := journal }).1.dts.Located := by
  obtain ⟨p, henter, hload⟩ := load_eq_ok h
  have hwidens := (stable_widens store { dts := {}, journal := journal }).started (fun h _ _ => h) (.refl _) henter
  have hstarted : (started store p).2.dts.Located := hwidens.located fun t ht => by cases ht
  rw [hload]
  split
  · exact (rounds_induction (P := fun _ d => d.dts.Located) located_round hstarted).1
  · exact hstarted

end Discovery

theorem Session.located_load {store : Store} {options : Discovery.Options} {entries : List String}
    {journal : Journal} {receipt : Discovery.Receipt}
    (h : (load { journal := journal } store options entries).2.2 = .ok receipt) :
    (load { journal := journal } store options entries).1.dts.Located := by
  obtain ⟨hresult, hdts⟩ := load_eq { journal := journal } store options entries
  rw [hdts]
  exact Discovery.located_load (hresult.symm.trans h)

namespace Snapshot

/-- Layers of sets whose records refer to links of their own linkbases are such a set. -/
theorem Layered.located {b e r : Dts} (h : Layered b e r) (hb : b.Located) (he : e.Located) : r.Located := by
  intro t ht record hrecord x hx
  rw [h.taxonomies] at ht
  rw [Dts.mem_linksIn, h.links]
  rcases List.mem_append.1 ht with ht | ht
  · obtain ⟨l, hl, hdocument⟩ := Dts.mem_linksIn.1 (hb t ht record hrecord x hx)
    exact ⟨l, (List.getElem?_append_left (List.getElem?_eq_some_iff.1 hl).1).trans hl, hdocument⟩
  · obtain ⟨u, hu, rfl⟩ := List.mem_map.1 ht
    rw [linkbases_moved] at hrecord
    obtain ⟨origin, horigin, rfl⟩ := List.mem_map.1 hrecord
    obtain ⟨k, hk, rfl⟩ := List.mem_map.1 hx
    obtain ⟨i, hi, hlookup⟩ := List.mem_filterMap.1 hk
    obtain ⟨l, hl, -, hfiltered⟩ := exists_of_lookup_filter (p := lacksDocument b) hlookup
    obtain ⟨l', hl', hdocument⟩ := Dts.mem_linksIn.1 (he u (List.mem_of_mem_filter hu) origin horigin i hi)
    cases hl.symm.trans hl'
    refine ⟨l, ?_, hdocument⟩
    rw [List.getElem?_append_right (Nat.le_add_right _ _), Nat.add_sub_cancel_left, hfiltered]

/-- Two records of one linkbase, the second of which refers to the links of the first that a base lacks. -/
structure Carried (b e r : Dts) (record carried : LinkbaseRecord) : Prop where
  location : carried.location = record.location
  role : carried.role = record.role
  embedded : carried.embedded = record.embedded
  denoted : r.denoted carried = (e.denoted record).filter (lacksDocument b)

theorem Layered.carried {b e r : Dts} (h : Layered b e r) (t : Taxonomy) :
    List.Forall₂ (Carried b e r) t.linkbases (moved b e t).linkbases := by
  rw [linkbases_moved, List.forall₂_map_right_iff]
  exact List.forall₂_same.2 fun record _ => ⟨rfl, rfl, rfl, h.denoted_moved record⟩

/-- When an extension is restored over its base, both of them loaded from nothing, each number in a record is that of
a link of the linkbase of the record. The records of a taxonomy that the base lacks refer to the links that they
referred to in the set that the extension was made of, in order, less those of documents that the base has links of. -/
theorem records_restoreExtension {baseStore store : Store} {baseOptions options : Discovery.Options}
    {baseEntries entries : List String} {baseJournal journal : Journal} {baseReceipt receipt : Discovery.Receipt}
    (hbase : (Session.load { journal := baseJournal } baseStore baseOptions baseEntries).2.2 = .ok baseReceipt)
    (hload : (Session.load { journal := journal } store options entries).2.2 = .ok receipt)
    (baseCreated baseCreated' created : String) (restoreJournal : Journal) :
    let b := (Session.load { journal := baseJournal } baseStore baseOptions baseEntries).1.dts
    let e := (Session.load { journal := journal } store options entries).1.dts
    ∃ r, restoreExtension (capture b baseCreated) (captureExtension e (capture b baseCreated') created)
        restoreJournal = .ok r ∧
      (∀ t ∈ r.dts.taxonomies, ∀ record ∈ t.linkbases, ∀ x ∈ record.links,
        ∃ h : x < r.dts.links.length, r.dts.links[x].document = record.location) ∧
      ∀ t ∈ e.taxonomies, (∀ u ∈ b.taxonomies, u.ns ≠ t.ns) →
        ∃ t', r.dts.taxonomyOf? t.ns = some t' ∧ List.Forall₂ (Carried b e r.dts) t.linkbases t'.linkbases := by
  intro b e
  have hb : b.Consistent := Session.consistent_load baseStore baseOptions baseEntries baseJournal
  have he : e.Consistent := Session.consistent_load store options entries journal
  obtain ⟨r, hr, hlayered, -⟩ := restoreExtension_capture hb he baseCreated created restoreJournal
  refine ⟨r, hr, fun t ht record hrecord x hx => ?_, fun t ht hlacks => ?_⟩
  · have hlocated := hlayered.located (Session.located_load hbase) (Session.located_load hload)
    obtain ⟨l, hl, hdocument⟩ := Dts.mem_linksIn.1 (hlocated t ht record hrecord x hx)
    obtain ⟨hlt, rfl⟩ := List.getElem?_eq_some_iff.1 hl
    exact ⟨hlt, hdocument⟩
  · refine ⟨moved b e t, ?_, hlayered.carried t⟩
    rw [hlayered.taxonomyOf?_of_lacks he.toIndexed hlacks, he.taxonomyOf?_eq_some_iff.2 ⟨ht, rfl⟩, Option.map_some]

end Snapshot

namespace Sample

/-- Two schemas that refer to one linkbase, and the second to one more. -/
def shared : List (String × String) := [
  ("a.xsd", annotatedSchema "a" (linkbaseRef "l.xml")),
  ("l.xml", linkbase "a.xsd#x"),
  ("b.xsd", annotatedSchema "b" (linkbaseRef "l.xml" ++ linkbaseRef "m.xml")),
  ("m.xml", linkbase "b.xsd#x")]

set_option maxRecDepth 100000 in
theorem load_shared_base :
    (∃ receipt, (Session.load {} (Shelf.ofTexts shared).store {} ["a.xsd"]).2.2 = .ok receipt) ∧
    let d := (Session.load {} (Shelf.ofTexts shared).store {} ["a.xsd"]).1.dts
    d.taxonomies.map (·.ns) = ["a"] ∧ d.links.map (·.document) = ["l.xml"] := by
  refine load_ofTexts shared (fun d => d.taxonomies.map (·.ns) = _ ∧ d.links.map (·.document) = _) 5 ?_ ?_
  all_goals
    unfold shared annotatedSchema linkbase roleLinkbase linkbaseOf linkbaseRef
    simp only [List.map_cons, List.map_nil]
    repeat rw [String.toList_append]
    repeat rw [String.toList_ofList]
    decide +kernel

set_option maxRecDepth 100000 in
/-- The second schema leads to the first by way of the linkbase that both refer to. -/
theorem load_shared :
    (∃ receipt, (Session.load {} (Shelf.ofTexts shared).store {} ["b.xsd"]).2.2 = .ok receipt) ∧
    let d := (Session.load {} (Shelf.ofTexts shared).store {} ["b.xsd"]).1.dts
    d.taxonomies.map (fun t => (t.ns, t.linkbases.map fun r => (d.denoted r).map (·.document))) =
      [("b", [["l.xml"], ["m.xml"]]), ("a", [["l.xml"]])] := by
  refine load_ofTexts shared (fun d => d.taxonomies.map (fun t =>
    (t.ns, t.linkbases.map fun r => (d.denoted r).map (·.document))) = _) 5 ?_ ?_
  all_goals
    unfold shared annotatedSchema linkbase roleLinkbase linkbaseOf linkbaseRef
    simp only [List.map_cons, List.map_nil]
    repeat rw [String.toList_append]
    repeat rw [String.toList_ofList]
    decide +kernel

end Sample

namespace Snapshot

/-- The second schema over the first keeps the link of the linkbase that it refers to alone. -/
theorem records_restoreExtension_shared :
    let store := (Shelf.ofTexts Sample.shared).store
    let b := (Session.load {} store {} ["a.xsd"]).1.dts
    let e := (Session.load {} store {} ["b.xsd"]).1.dts
    (∃ receipt, (Session.load {} store {} ["a.xsd"]).2.2 = .ok receipt) ∧
    (∃ receipt, (Session.load {} store {} ["b.xsd"]).2.2 = .ok receipt) ∧
    ∃ r t, restoreExtension (capture b "") (captureExtension e (capture b "") "") {} = .ok r ∧
      (∀ t ∈ r.dts.taxonomies, ∀ record ∈ t.linkbases, ∀ x ∈ record.links,
        ∃ h : x < r.dts.links.length, r.dts.links[x].document = record.location) ∧
      r.dts.taxonomyOf? "b" = some t ∧
      t.linkbases.map (fun record => (r.dts.denoted record).map (·.document)) = [[], ["m.xml"]] := by
  obtain ⟨⟨baseReceipt, hbase⟩, hbns, hbdocuments⟩ := Sample.load_shared_base
  obtain ⟨⟨receipt, hload⟩, hrecords⟩ := Sample.load_shared
  obtain ⟨r, hr, hlocated, hcarried⟩ := records_restoreExtension hbase hload "" "" "" {}
  dsimp only
  refine ⟨⟨baseReceipt, hbase⟩, ⟨receipt, hload⟩, ?_⟩
  generalize (Session.load {} (Shelf.ofTexts Sample.shared).store {} ["a.xsd"]).1.dts = b at *
  generalize (Session.load {} (Shelf.ofTexts Sample.shared).store {} ["b.xsd"]).1.dts = e at *
  obtain ⟨t, ts, hsplit, ht, -⟩ := List.map_eq_cons_iff.1 hrecords
  obtain ⟨hns, hdocuments⟩ := Prod.mk.inj ht
  have hlacks : ∀ u ∈ b.taxonomies, u.ns ≠ t.ns := by
    intro u hu heq
    have hmem := List.mem_map_of_mem (f := Taxonomy.ns) hu
    rw [hbns, List.mem_singleton, heq, hns] at hmem
    exact absurd hmem (by decide)
  obtain ⟨t', ht', hrel⟩ := hcarried t (by rw [hsplit]; exact List.mem_cons_self) hlacks
  have hkept (record carried : LinkbaseRecord) (h : Carried b e r.dts record carried) :
      ((e.denoted record).map (·.document)).filter (· != "l.xml") = (r.dts.denoted carried).map (·.document) := by
    rw [h.denoted, List.filter_map]
    refine congrArg (List.map _) (List.filter_congr fun l _ => ?_)
    have hany : (b.links.any fun k => k.document == l.document) =
        (b.links.map (·.document)).any (· == l.document) := by
      rw [List.any_map]
      rfl
    unfold lacksDocument
    rw [hany, hbdocuments]
    simp [bne, eq_comm]
  have hmaps := List.forall₂_eq_eq_eq ▸ List.forall₂_map_left_iff.2 (List.forall₂_map_right_iff.2 (hrel.imp hkept))
  refine ⟨r, t', hr, hlocated, hns ▸ ht', ?_⟩
  have hfiltered := congrArg (List.map (List.filter (· != "l.xml"))) hdocuments
  rw [List.map_map] at hfiltered
  exact hmaps.symm.trans (hfiltered.trans (by decide))

end Snapshot

end TaxonomySet
