import TaxonomySet.Proofs.Discovery.Evaluation
import TaxonomySet.Proofs.Discovery.Records

namespace TaxonomySet

/-- Whether an element stands for a locator, and white space at the ends of its reference makes no
difference to the document that it names. -/
def ExtendedLink.LocatesPlainly (location : String) (n : Markup.Node) (h : Href) : Prop :=
  n.xlink? "type" = some "locator" ∧ ∃ raw, n.xlink? "href" = some raw ∧ h = Href.parse location raw ∧
    (Location.splitFragment raw).1 = (Location.splitFragment (Text.trim raw)).1

namespace Discovery

/-- Where the links of a discovery come from: from documents taken as linkbases, all of whose references
have been followed. -/
structure Followed (store : Store) (seen : SortedSet String) (d : Discovery) : Prop
    extends Grounded store seen d where
  taken : ∀ {l}, l ∈ d.dts.links → d.loaded.contains l.document = true ∧ ∃ tree registry,
    store.document l.document = .ok tree ∧ l ∈ (ExtendedLink.readAll registry l.document tree).value ∧
      ∀ m ∈ referenced l.document tree, seen.contains m = true ∨ d.loaded.contains m = true

/-- A document that a linkbase refers to is pending before the links of the linkbase are added, unless it
was seen or taken. -/
theorem mem_targets {d : Discovery} {seen : SortedSet String} {trees : List (String × Markup.Node)}
    {linkbase : String × Markup.Node} (hmem : linkbase ∈ trees) {m : String}
    (hm : m ∈ referenced linkbase.1 linkbase.2) (hseen : seen.contains m = false)
    (htaken : d.loaded.contains m = false) :
    ∃ p ∈ d.targets seen trees, p.location = m := by
  have hnormal : Location.normalize m = m := by
    obtain ⟨n, -, hn⟩ := List.mem_filterMap.1 (List.mem_eraseDups.1 hm)
    obtain ⟨href, -, hresolve⟩ := Option.bind_eq_some_iff.1 hn
    dsimp only at hresolve
    split at hresolve
    · cases hresolve
    · rw [← Option.some_inj.1 hresolve]
      exact Location.normalize_resolve _ _
  exact exists_mem_targets_iff.2 ⟨linkbase, hmem, m, hm, ⟨hseen, htaken⟩, hnormal⟩

theorem Followed.round {store : Store} {seen : SortedSet String} {d : Discovery} (h : Followed store seen d) :
    Followed store (round store true seen d).1 (round store true seen d).2 := by
  have hgrounded := h.toGrounded.round true
  refine ⟨hgrounded, fun {l} hl => ?_⟩
  obtain ⟨hloaded', hlinks⟩ := links_round store true seen d
  have hloaded := (takeLinkbases_fst store d).2.2
  rw [hloaded', hloaded]
  rw [hlinks] at hl
  rcases List.mem_append.1 hl with hl | hl
  · obtain ⟨htaken, tree, registry, hdocument, hread, hreferences⟩ := h.taken hl
    have hkeep {m : String} (hm : d.loaded.contains m = true) :
        (d.loaded.insertAll (d.unloaded.map (·.1))).contains m = true := SortedSet.mem_insertAll.2 (.inr hm)
    exact ⟨hkeep htaken, tree, registry, hdocument, hread, fun m hm =>
      (hreferences m hm).imp (fun hm => contains_drain (.inl hm)) hkeep⟩
  · obtain ⟨⟨location, tree⟩, hlinkbase, hl⟩ := List.mem_flatMap.1 hl
    cases ExtendedLink.document_of_mem_readAll hl
    obtain ⟨hunloaded, hdocument⟩ := h.mem_takeLinkbases_iff.1 hlinkbase
    have htaken : (d.loaded.insertAll (d.unloaded.map (·.1))).contains l.document = true :=
      SortedSet.mem_insertAll.2 (.inl hunloaded)
    refine ⟨htaken, tree, _, hdocument, hl, fun m hm => ?_⟩
    by_cases hseen : seen.contains m = true
    · exact .inl (contains_drain (.inl hseen))
    · by_cases hm' : (d.takeLinkbases store).1.loaded.contains m = true
      · exact .inr (hloaded ▸ hm')
      · exact .inl (contains_drain (.inr
          (mem_targets hlinkbase hm (Bool.eq_false_iff.2 hseen) (Bool.eq_false_iff.2 hm'))))

theorem followed_started {store : Store} {entries : List String} {journal : Journal} {p : Progress} {f : Option Fault}
    (henter : enterEntries store { discovery := { dts := {}, journal := journal } } entries = (p, f)) :
    Followed store (started store p).1 (started store p).2 := by
  have hgrounded := (stable_grounded store).started (fun h _ _ => h) (grounded_empty store journal) henter
  refine ⟨hgrounded, fun hl => ?_⟩
  rw [(links_started henter).1] at hl
  cases hl

/-- A load with the default options follows all references of its links. -/
theorem followed_load {store : Store} {entries : List String} {journal : Journal} {receipt : Receipt}
    (h : (load store {} entries { dts := {}, journal := journal }).2 = .ok receipt) :
    ∃ seen, Followed store seen (load store {} entries { dts := {}, journal := journal }).1 := by
  obtain ⟨p, henter, hload⟩ := load_eq_ok h
  rw [hload]
  exact ⟨_, (rounds_induction (P := fun seen d => Followed store seen d) (fun h => h.round)
    (followed_started henter)).1⟩

/-- The document that a locator refers to has been seen as a schema or taken as a linkbase. -/
theorem Followed.seen_or_taken {store : Store} {seen : SortedSet String} {d : Discovery} (h : Followed store seen d)
    {l : ExtendedLink} (hl : l ∈ d.dts.links) {tree : Markup.Node} (hdocument : store.document l.document = .ok tree)
    {n : Markup.Node} (hn : n ∈ tree.descendants) {href : Href}
    (hlocates : ExtendedLink.LocatesPlainly l.document n href) :
    seen.contains href.document = true ∨ d.loaded.contains href.document = true := by
  obtain ⟨htaken, tree', registry, hdocument', -, hreferences⟩ := h.taken hl
  obtain rfl : tree = tree' := Except.ok.inj (hdocument.symm.trans hdocument')
  obtain ⟨htype, raw, hraw, hparse, hplain⟩ := hlocates
  have htarget : href.document = Location.resolve l.document (Location.splitFragment raw).1 := by
    rw [hparse, hplain, Href.parse]
  rw [htarget]
  by_cases hempty : (Location.splitFragment raw).1.isEmpty = true
  · -- the reference stays within the document
    obtain ⟨i, j, r, hr, hlocation⟩ := h.recorded htaken
    unfold Location.resolve
    rw [if_pos hempty, ← hlocation, h.normal hr, hlocation]
    exact .inr htaken
  · refine hreferences _ (List.mem_eraseDups.2 (List.mem_filterMap.2 ⟨n, List.mem_filter.2 ⟨hn, ?_⟩, ?_⟩))
    · simp [isReference, htype]
    · rw [hraw, Option.bind_some]
      dsimp only
      rw [if_neg hempty]

/-- A schema that was seen belongs to a taxonomy, and so does one that holds a linkbase that was taken. -/
theorem Followed.located_or_recorded {store : Store} {seen : SortedSet String} {d : Discovery}
    (h : Followed store seen d) {l : String} (hl : seen.contains l = true ∨ d.loaded.contains l = true)
    (hschema : store.schema? l ≠ none) : (∃ i, d.dts.byLocation.get? l = some i) ∨
      ∃ t ∈ d.dts.taxonomies, ∃ r ∈ t.linkbases, r.location = l ∧ r.embedded = false := by
  rcases hl with hl | hl
  · exact .inl (h.located hl hschema)
  · obtain ⟨i, j, r, hr, rfl⟩ := h.recorded hl
    cases hembedded : r.embedded with
    | true =>
      obtain ⟨root, hroot⟩ := h.embedded hr hembedded
      exact .inl (h.kept hroot).2
    | false =>
      obtain ⟨t, ht, hr⟩ := Dts.record?_eq_some_iff.1 hr
      exact .inr ⟨t, List.mem_of_getElem? ht, r, List.mem_of_getElem? hr, rfl, hembedded⟩

end Discovery

namespace Sample

/-- Two schemas that refer to one linkbase. The second is found only by way of the linkbase, and not before
its links have been read. -/
def latecomer : List (String × String) := [
  ("a.xsd", annotatedSchema "" (linkbaseRef "l.xml")),
  ("l.xml", linkbase "b.xsd#x"),
  ("b.xsd", annotatedSchema "b" (linkbase "c.xsd#x")),
  ("c.xsd", annotatedSchema "c" (linkbaseRef "l.xml"))]

set_option maxRecDepth 100000 in
/-- The linkbase is read before the second schema that refers to it is found. -/
theorem load_latecomer :
    (∃ receipt, (Session.load {} (Shelf.ofTexts latecomer).store {} ["a.xsd"]).2.2 = .ok receipt) ∧
    let d := (Session.load {} (Shelf.ofTexts latecomer).store {} ["a.xsd"]).1.dts
    d.links.map (fun l => (l.document, l.locators.get? "x")) =
      [("l.xml", some [⟨"b.xsd", some "x"⟩]), ("b.xsd", some [⟨"c.xsd", some "x"⟩])] ∧
    d.taxonomies.map (·.linkbases) = [[{ location := "l.xml", links := [0] }],
      [{ location := "b.xsd", embedded := true, links := [1] }], [{ location := "l.xml" }]] := by
  refine load_ofTexts latecomer (fun d => d.links.map (fun l => (l.document, l.locators.get? "x")) = _ ∧
    d.taxonomies.map (·.linkbases) = _) 5 ?_ ?_
  all_goals
    unfold latecomer annotatedSchema linkbaseRef linkbase roleLinkbase linkbaseOf
    simp only [List.map_cons, List.map_nil]
    repeat rw [String.toList_append]
    repeat rw [String.toList_ofList]
    decide +kernel

/-- A schema that is referred to as a linkbase only, and by a locator in that linkbase. -/
def disguised : List (String × String) := [
  ("e.xsd", annotatedSchema "" (linkbaseRef "s.xsd")),
  ("s.xsd", annotatedSchema "s" (linkbase "#x"))]

set_option maxRecDepth 100000 in
/-- The schema is taken as a linkbase. -/
theorem load_disguised :
    (∃ receipt, (Session.load {} (Shelf.ofTexts disguised).store {} ["e.xsd"]).2.2 = .ok receipt) ∧
    let d := (Session.load {} (Shelf.ofTexts disguised).store {} ["e.xsd"]).1.dts
    d.links.map (fun l => (l.document, l.locators.get? "x")) = [("s.xsd", some [⟨"s.xsd", some "x"⟩])] ∧
    d.taxonomyAt? "s.xsd" = none := by
  refine load_ofTexts disguised (fun d => d.links.map (fun l => (l.document, l.locators.get? "x")) = _ ∧
    d.taxonomyAt? "s.xsd" = _) 5 ?_ ?_
  all_goals
    unfold disguised annotatedSchema linkbaseRef linkbase roleLinkbase linkbaseOf
    simp only [List.map_cons, List.map_nil]
    repeat rw [String.toList_append]
    repeat rw [String.toList_ofList]
    decide +kernel

end Sample

namespace Session

/-- What a label of a loaded link stands for, some locator of its document refers to. If that locator
refers to a schema, and white space at the ends of the reference does not matter, the schema belongs to a
taxonomy, unless a schema names its document as a linkbase. -/
theorem taxonomyAt?_of_locator {store : Store} {entries : List String} {journal : Journal}
    {receipt : Discovery.Receipt} (hload : (load { journal := journal } store {} entries).2.2 = .ok receipt)
    {l : ExtendedLink} (hl : l ∈ (load { journal := journal } store {} entries).1.dts.links) {label : String}
    {hrefs : List Href} (hget : l.locators.get? label = some hrefs) {href : Href} (hmem : href ∈ hrefs) :
    let d := (load { journal := journal } store {} entries).1.dts
    ∃ tree, store.document l.document = .ok tree ∧ (∃ n ∈ tree.descendants, ExtendedLink.Locates l.document n href) ∧
      ((∃ n ∈ tree.descendants, ExtendedLink.LocatesPlainly l.document n href) →
        ∀ root, store.document href.document = .ok root → root.isNamed Vocabulary.xmlSchema "schema" = true →
          (d.taxonomyAt? href.document).isSome = true ∨
            ∃ t ∈ d.taxonomies, ∃ r ∈ t.linkbases, r.location = href.document ∧ r.embedded = false) := by
  intro d
  have hconsistent : d.Consistent := consistent_load store {} entries journal
  obtain ⟨hresult, hdts⟩ := load_eq { journal := journal } store {} entries
  obtain ⟨seen, hfollowed⟩ := Discovery.followed_load (hresult.symm.trans hload)
  rw [hdts] at hl
  obtain ⟨-, tree, registry, hdocument, hread, -⟩ := hfollowed.taken hl
  refine ⟨tree, hdocument, ExtendedLink.locates_of_mem_readAll hread hget hmem, ?_⟩
  rintro ⟨n, hn, hlocates⟩ root hroot hnamed
  have hschema : store.schema? href.document ≠ none := fun hnone => by
    have hnot := Store.schema?_eq_none_iff.1 hnone root hroot
    rw [hnamed] at hnot
    cases hnot
  have hfound := hfollowed.located_or_recorded (hfollowed.seen_or_taken hl hdocument hn hlocates) hschema
  rw [← hdts] at hfound
  refine hfound.imp_left fun ⟨i, hi⟩ => ?_
  obtain ⟨t, ht, -⟩ := hconsistent.byLocation hi
  unfold Dts.taxonomyAt?
  rw [hi, Option.bind_some, ht]
  rfl

set_option maxRecDepth 100000 in
theorem document_latecomer : (∃ tree, (Shelf.ofTexts Sample.latecomer).store.document "l.xml" = .ok tree ∧
      (tree.descendants.any fun n => n.xlink? "type" == some "locator" && n.xlink? "href" == some "b.xsd#x") = true) ∧
    ∃ root, (Shelf.ofTexts Sample.latecomer).store.document "b.xsd" = .ok root ∧
      root.isNamed Vocabulary.xmlSchema "schema" = true := by
  constructor
  all_goals
    refine Sample.document_ofTexts Sample.latecomer _ ?_ ?_
    all_goals
      unfold Sample.latecomer Sample.annotatedSchema Sample.linkbaseRef Sample.linkbase Sample.roleLinkbase Sample.linkbaseOf
      simp only [List.map_cons, List.map_nil]
      repeat rw [String.toList_append]
      repeat rw [String.toList_ofList]
      decide +kernel

/-- The locator in the linkbase leads to a schema, which is read for it. -/
theorem taxonomyAt?_latecomer :
    (∃ receipt, (load {} (Shelf.ofTexts Sample.latecomer).store {} ["a.xsd"]).2.2 = .ok receipt) ∧
    let d := (load {} (Shelf.ofTexts Sample.latecomer).store {} ["a.xsd"]).1.dts
    ∃ l ∈ d.links, l.locators.get? "x" = some [⟨"b.xsd", some "x"⟩] ∧ (d.taxonomyAt? "b.xsd").isSome = true := by
  obtain ⟨⟨receipt, hload⟩, hlinks, hrecords⟩ := Sample.load_latecomer
  obtain ⟨l, hl, hlink⟩ := List.mem_map.1 (hlinks.symm ▸ List.mem_cons_self)
  obtain ⟨hdocument, hget⟩ := Prod.mk.inj hlink
  refine ⟨⟨receipt, hload⟩, l, hl, hget, ?_⟩
  obtain ⟨⟨tree, htree, hlocator⟩, root, hroot, hnamed⟩ := document_latecomer
  obtain ⟨n, hn, hlocator⟩ := List.any_eq_true.1 hlocator
  obtain ⟨htype, hhref⟩ := Bool.and_eq_true_iff.1 hlocator
  have hplain : ExtendedLink.LocatesPlainly "l.xml" n ⟨"b.xsd", some "x"⟩ :=
    ⟨beq_iff_eq.1 htype, "b.xsd#x", beq_iff_eq.1 hhref, by decide +kernel, by decide +kernel⟩
  obtain ⟨tree', htree', -, hfound⟩ := taxonomyAt?_of_locator hload hl hget List.mem_cons_self
  rw [hdocument] at htree' hfound
  obtain rfl : tree = tree' := Except.ok.inj (htree.symm.trans htree')
  refine (hfound ⟨n, hn, hplain⟩ root hroot hnamed).resolve_right ?_
  rintro ⟨t, ht, r, hr, hlocation, hembedded⟩
  have hmem := hrecords ▸ List.mem_map_of_mem (f := fun t : Taxonomy => t.linkbases) ht
  -- the only record of the schema is for the linkbase in it
  have hnot : ∀ rs ∈ [[{ location := "l.xml", links := [0] }], [{ location := "b.xsd", embedded := true, links := [1] }],
      [({ location := "l.xml" } : LinkbaseRecord)]], ∀ r ∈ rs, r.location = "b.xsd" → r.embedded = true := by decide
  rw [hnot _ hmem r hr hlocation] at hembedded
  cases hembedded

set_option maxRecDepth 100000 in
theorem document_disguised : ∃ root, (Shelf.ofTexts Sample.disguised).store.document "s.xsd" = .ok root ∧
    root.isNamed Vocabulary.xmlSchema "schema" = true := by
  refine Sample.document_ofTexts Sample.disguised (·.isNamed Vocabulary.xmlSchema "schema") ?_ ?_
  all_goals
    unfold Sample.disguised Sample.annotatedSchema Sample.linkbaseRef Sample.linkbase Sample.roleLinkbase Sample.linkbaseOf
    simp only [List.map_cons, List.map_nil]
    repeat rw [String.toList_append]
    repeat rw [String.toList_ofList]
    decide +kernel

/-- A schema that is referred to as a linkbase only is not read as a schema for a locator. -/
theorem not_forall_taxonomyAt?_of_locator :
    ¬ ∀ (store : Store) (entries : List String) (receipt : Discovery.Receipt),
      (load {} store {} entries).2.2 = .ok receipt →
      ∀ l ∈ (load {} store {} entries).1.dts.links, ∀ label hrefs, l.locators.get? label = some hrefs →
        ∀ href ∈ hrefs, ∀ root, store.document href.document = .ok root →
          root.isNamed Vocabulary.xmlSchema "schema" = true →
          ((load {} store {} entries).1.dts.taxonomyAt? href.document).isSome = true := by
  intro hall
  obtain ⟨⟨receipt, hload⟩, hlinks, hnone⟩ := Sample.load_disguised
  obtain ⟨l, hl, hlink⟩ := List.mem_map.1 (hlinks.symm ▸ List.mem_cons_self)
  obtain ⟨root, hroot, hnamed⟩ := document_disguised
  have hsome := hall _ _ receipt hload l hl "x" _ (Prod.mk.inj hlink).2 _ List.mem_cons_self root hroot hnamed
  rw [hnone] at hsome
  cases hsome

end Session

end TaxonomySet
