import TaxonomySet.Proofs.Discovery.Steps
import TaxonomySet.Proofs.Link.Reading
import TaxonomySet.Proofs.Schema.Reading

namespace TaxonomySet

namespace Dts

/-- The record in a place of a taxonomy. -/
def record? (d : Dts) (i j : Nat) : Option LinkbaseRecord := d.taxonomies[i]?.bind (·.linkbases[j]?)

theorem record?_eq_some_iff {d : Dts} {i j : Nat} {r : LinkbaseRecord} :
    d.record? i j = some r ↔ ∃ t, d.taxonomies[i]? = some t ∧ t.linkbases[j]? = some r := by
  unfold record?
  rw [Option.bind_eq_some_iff]

theorem exists_record? {d : Dts} {t : Taxonomy} {r : LinkbaseRecord} (ht : t ∈ d.taxonomies)
    (hr : r ∈ t.linkbases) : ∃ i j, d.record? i j = some r := by
  obtain ⟨i, hi⟩ := List.mem_iff_getElem?.1 ht
  obtain ⟨j, hj⟩ := List.mem_iff_getElem?.1 hr
  exact ⟨i, j, record?_eq_some_iff.2 ⟨t, hi, hj⟩⟩

/-- The first record of a linkbase. -/
def firstRecord? (d : Dts) (location : String) : Option LinkbaseRecord :=
  (d.taxonomies.flatMap (·.linkbases)).find? (·.location == location)

theorem record?_registerLocation (d : Dts) (location : String) (id i j : Nat) :
    (d.registerLocation location id).record? i j = d.record? i j := by
  unfold record?
  change ((d.taxonomies.modify id _)[i]?).bind _ = _
  rw [List.getElem?_modify]
  cases d.taxonomies[i]? with
  | none => rfl
  | some t => by_cases h : id = i <;> simp [h]

theorem record?_addTaxonomy (d : Dts) {t : Taxonomy} (ht : t.linkbases = []) (i j : Nat) :
    (d.addTaxonomy t).record? i j = d.record? i j := by
  unfold record?
  change ((d.taxonomies ++ [t])[i]?).bind _ = _
  rcases Nat.lt_or_ge i d.taxonomies.length with hlt | hge
  · rw [List.getElem?_append_left hlt]
  · rw [List.getElem?_append_right hge, List.getElem?_eq_none hge]
    cases i - d.taxonomies.length <;> simp [ht]

theorem record?_addLinkbase (d : Dts) (location : String) (links : List ExtendedLink) (i j : Nat) :
    (d.addLinkbase location links).record? i j = (d.record? i j).map fun r =>
      if r.location = location then { r with links := r.links ++ d.nextLinks links } else r := by
  unfold record?
  change ((d.taxonomies.map (·.attach location (d.nextLinks links)))[i]?).bind _ = _
  rw [List.getElem?_map]
  cases d.taxonomies[i]? with
  | none => rfl
  | some t => exact List.getElem?_map

/-- The numbers of the links that a document holds. -/
def linksIn (d : Dts) (document : String) : List Nat :=
  ((d.links.zipIdx).filter fun l => l.1.document == document).map (·.2)

theorem linksIn_eq (d : Dts) (document : String) : d.linksIn document =
    (((d.links.map (·.document)).zipIdx).filter fun l => l.1 == document).map (·.2) := by
  unfold linksIn
  rw [List.zipIdx_map, List.filter_map, List.map_map]
  rfl

theorem linksIn_addLinkbase (d : Dts) {location : String} {links : List ExtendedLink}
    (h : ∀ l ∈ links, l.document = location) (document : String) :
    (d.addLinkbase location links).linksIn document =
      d.linksIn document ++ if document = location then d.nextLinks links else [] := by
  unfold linksIn
  change (((d.links ++ links).zipIdx).filter _).map _ = _
  have hnew : ((links.zipIdx (0 + d.links.length)).filter fun l => l.1.document == document).map (·.2) =
      if document = location then d.nextLinks links else [] := by
    have hdocument {l : ExtendedLink × Nat} (hl : l ∈ links.zipIdx (0 + d.links.length)) : l.1.document = location :=
      h l.1 (List.fst_mem_of_mem_zipIdx hl)
    split
    · rename_i heq
      rw [List.filter_eq_self.2 fun l hl => beq_iff_eq.2 ((hdocument hl).trans heq.symm), List.zipIdx_map_snd]
      unfold nextLinks
      rw [Nat.zero_add, List.range'_eq_map_range]
    · rename_i hne
      rw [List.filter_eq_nil_iff.2 fun l hl heq => hne ((beq_iff_eq.1 heq).symm.trans (hdocument hl)), List.map_nil]
  rw [List.zipIdx_append, List.filter_append, List.map_append, hnew]

theorem filterMap_linksIn (d : Dts) (document : String) :
    (d.linksIn document).filterMap (d.links[·]?) = d.links.filter (·.document == document) :=
  Positions.filterMap_getElem?_zipIdx d.links (·.document == document)

end Dts

theorem Schema.location_of_read {location : String} {adopted : Option String} {root : Markup.Node} {s : Schema}
    {ds : List Diagnostic} (h : Schema.read location adopted root = .ok ⟨s, ds⟩) : s.location = location := by
  unfold Schema.read at h
  split at h
  · cases h
    rfl
  · cases h

/-- The linkbases that a schema refers to have normal locations. -/
theorem Schema.normalize_linkbaseRef {location : String} {adopted : Option String} {root : Markup.Node} {s : Schema}
    {ds : List Diagnostic} (h : Schema.read location adopted root = .ok ⟨s, ds⟩) {r : LinkbaseRef}
    (hr : r ∈ s.linkbaseRefs) : Location.normalize r.location = r.location := by
  obtain ⟨items, hs, hstems⟩ := exists_stems_of_read h
  rw [hs] at hr
  obtain ⟨item, hitem, hvalue⟩ := List.mem_filterMap.1 hr
  cases item <;> cases hvalue
  obtain ⟨n, -, hstem⟩ := hstems _ hitem
  cases hstem with
  | noting hinforms =>
    cases hinforms with
    | linkbase hnormal => exact hnormal

namespace Discovery

theorem record?_addSchema (d : Discovery) (k : Nat) (s : Schema) (root : Markup.Node) (i j : Nat) :
    (d.addSchema k s root).dts.record? i j =
      if i = k then d.dts.taxonomies[i]?.bind fun t => (t.linkbases ++ Taxonomy.recordsOf s)[j]?
      else d.dts.record? i j := by
  rw [addSchema_dts]
  unfold Dts.record?
  change ((d.dts.taxonomies.modify k _)[i]?).bind _ = _
  rw [List.getElem?_modify]
  cases d.dts.taxonomies[i]? with
  | none => simp
  | some t =>
    by_cases h : i = k
    · simp [h, Taxonomy.linkbases_addSchema]
    · simp [h, Ne.symm h]

theorem record?_addSchema_of_some {d : Discovery} {k i j : Nat} {s : Schema} {root : Markup.Node}
    {r : LinkbaseRecord} (h : d.dts.record? i j = some r) : (d.addSchema k s root).dts.record? i j = some r := by
  rw [record?_addSchema]
  split
  · obtain ⟨t, ht, hr⟩ := Dts.record?_eq_some_iff.1 h
    rw [ht, Option.bind_some, List.getElem?_append_left (List.getElem?_eq_some_iff.1 hr).1, hr]
  · exact h

theorem record?_of_addSchema {d : Discovery} {k i j : Nat} {s : Schema} {root : Markup.Node} {r : LinkbaseRecord}
    (h : (d.addSchema k s root).dts.record? i j = some r) :
    d.dts.record? i j = some r ∨ d.dts.record? i j = none ∧ r ∈ Taxonomy.recordsOf s := by
  rw [record?_addSchema] at h
  split at h
  · obtain ⟨t, ht, hr⟩ := Option.bind_eq_some_iff.1 h
    unfold Dts.record?
    rw [ht, Option.bind_some]
    rcases Nat.lt_or_ge j t.linkbases.length with hlt | hge
    · rw [List.getElem?_append_left hlt] at hr
      exact .inl hr
    · rw [List.getElem?_append_right hge] at hr
      exact .inr ⟨List.getElem?_eq_none hge, List.mem_of_getElem? hr⟩
  · exact .inl h

theorem record?_of_enter_of_some {d d' : Discovery} {location : String} {origin : Origin} {root : Markup.Node}
    {k : Nat} {more : List Pending} (h : d.enter location origin root = .ok (d', k, more)) {i j : Nat}
    {r : LinkbaseRecord} (hr : d.dts.record? i j = some r) : d'.dts.record? i j = some r := by
  obtain ⟨_, s, ds, -, -, ⟨rfl, -, -⟩ | ⟨rfl, -, -⟩ | ⟨rfl, -, -, -⟩⟩ := enter_cases h
  · exact record?_addSchema_of_some ((Dts.record?_registerLocation _ _ _ _ _).trans hr)
  · exact (Dts.record?_registerLocation _ _ _ _ _).trans hr
  · exact record?_addSchema_of_some ((Dts.record?_addTaxonomy _ rfl _ _).trans hr)

/-- A record that is there after a document was taken in was there before, or is new and has no links. A
new one for a linkbase in a schema is for that document, which is kept. -/
theorem record?_of_enter {d d' : Discovery} {location : String} {origin : Origin} {root : Markup.Node} {k : Nat}
    {more : List Pending} (h : d.enter location origin root = .ok (d', k, more))
    (hnormal : Location.normalize location = location) {i j : Nat} {r : LinkbaseRecord}
    (hr : d'.dts.record? i j = some r) :
    d.dts.record? i j = some r ∨ d.dts.record? i j = none ∧ r.links = [] ∧
      Location.normalize r.location = r.location ∧
      (r.embedded = true → r.location = location ∧ d'.embedded.get? location = some root) := by
  obtain ⟨_, s, ds, hread, -, hcases⟩ := enter_cases h
  have hlocation := Schema.location_of_read hread
  -- the records of the schema
  have hnew (hembedded : d'.embedded = if s.hasLinkbases then d.embedded.insert s.location root else d.embedded)
      (hmem : r ∈ Taxonomy.recordsOf s) : r.links = [] ∧ Location.normalize r.location = r.location ∧
        (r.embedded = true → r.location = location ∧ d'.embedded.get? location = some root) := by
    refine ⟨Taxonomy.links_of_mem_recordsOf hmem, ?_⟩
    unfold Taxonomy.recordsOf at hmem
    rcases List.mem_append.1 hmem with hmem | hmem
    · obtain ⟨ref, href, rfl⟩ := List.mem_map.1 hmem
      exact ⟨Schema.normalize_linkbaseRef hread href, fun h => by cases h⟩
    · split at hmem
      · rename_i hlinkbases
        rw [List.mem_singleton.1 hmem, hembedded, if_pos hlinkbases, hlocation]
        exact ⟨hnormal, fun _ => ⟨rfl, SortedMap.get?_insert_self _ _ _⟩⟩
      · cases hmem
  rcases hcases with ⟨rfl, -, -⟩ | ⟨rfl, -, -⟩ | ⟨rfl, -, -, -⟩
  · rcases record?_of_addSchema hr with h | ⟨hnone, hmem⟩
    · exact .inl ((Dts.record?_registerLocation _ _ _ _ _).symm.trans h)
    · exact .inr ⟨(Dts.record?_registerLocation _ _ _ _ _).symm.trans hnone, hnew (by simp [report]) hmem⟩
  · exact .inl ((Dts.record?_registerLocation _ _ _ _ _).symm.trans hr)
  · rcases record?_of_addSchema hr with h | ⟨hnone, hmem⟩
    · exact .inl ((Dts.record?_addTaxonomy _ rfl _ _).symm.trans h)
    · exact .inr ⟨(Dts.record?_addTaxonomy _ rfl _ _).symm.trans hnone, hnew (by simp [report]) hmem⟩

theorem mem_recordLocations {d : Discovery} {l : String} :
    l ∈ d.recordLocations ↔ ∃ i j r, d.dts.record? i j = some r ∧ r.location = l := by
  unfold recordLocations
  simp only [List.mem_flatMap, List.mem_map]
  constructor
  · rintro ⟨t, ht, r, hr, rfl⟩
    obtain ⟨i, j, hrecord⟩ := Dts.exists_record? ht hr
    exact ⟨i, j, r, hrecord, rfl⟩
  · rintro ⟨i, j, r, hr, rfl⟩
    obtain ⟨t, ht, hj⟩ := Dts.record?_eq_some_iff.1 hr
    exact ⟨t, List.mem_of_getElem? ht, r, List.mem_of_getElem? hj, rfl⟩

theorem nodup_unloaded (d : Discovery) : (d.unloaded.map (·.1)).Nodup :=
  (eraseDupsBy_sublist_nodup Prod.fst _).2

/-- A linkbase that is left is one that some record refers to. -/
theorem exists_record?_of_mem_unloaded {d : Discovery} {p : String × Bool} (h : p ∈ d.unloaded) :
    (∃ i j r, d.dts.record? i j = some r ∧ r.location = p.1 ∧ r.embedded = p.2) ∧
      d.loaded.contains p.1 = false := by
  have hmem := (eraseDupsBy_sublist_nodup Prod.fst _).1.subset h
  obtain ⟨hmem, hfresh⟩ := List.mem_filter.1 hmem
  obtain ⟨t, ht, hmem⟩ := List.mem_flatMap.1 hmem
  obtain ⟨r, hr, rfl⟩ := List.mem_map.1 hmem
  obtain ⟨i, j, hrecord⟩ := Dts.exists_record? ht hr
  exact ⟨⟨i, j, r, hrecord, rfl, rfl⟩, by simpa using hfresh⟩

theorem mem_unloaded_of_record? {d : Discovery} {i j : Nat} {r : LinkbaseRecord} (h : d.dts.record? i j = some r)
    (hfresh : d.loaded.contains r.location = false) : r.location ∈ d.unloaded.map (·.1) := by
  obtain ⟨t, ht, hr⟩ := Dts.record?_eq_some_iff.1 h
  refine mem_eraseDupsBy_fst (List.mem_map.2 ⟨(r.location, r.embedded), List.mem_filter.2 ⟨?_, ?_⟩, rfl⟩)
  · exact List.mem_flatMap.2 ⟨t, List.mem_of_getElem? ht, List.mem_map.2 ⟨r, List.mem_of_getElem? hr, rfl⟩⟩
  · simp [hfresh]

/-- A linkbase that is left is read as its first record says. -/
theorem mem_unloaded_iff {d : Discovery} {location : String} {embedded : Bool} :
    (location, embedded) ∈ d.unloaded ↔
      d.loaded.contains location = false ∧ (d.dts.firstRecord? location).map (·.embedded) = some embedded := by
  have hrecords : (d.dts.taxonomies.flatMap fun t => t.linkbases.map fun r => (r.location, r.embedded)) =
      (d.dts.taxonomies.flatMap (·.linkbases)).map fun r => (r.location, r.embedded) := List.map_flatMap.symm
  unfold unloaded Dts.firstRecord?
  dsimp only
  rw [mem_eraseDupsBy_iff Prod.fst, List.find?_filter, hrecords, List.find?_map, Option.map_eq_some_iff]
  dsimp only [Function.comp_def]
  cases hloaded : d.loaded.contains location with
  | false =>
    have hsame : (fun r : LinkbaseRecord => decide ((!d.loaded.contains r.location) = true ∧
        (r.location == location) = true)) = fun r => r.location == location := by
      funext r
      by_cases hr : r.location = location
      · simp [hr, hloaded]
      · simp [hr]
    rw [hsame]
    constructor
    · rintro ⟨r, hr, heq⟩
      exact ⟨rfl, Option.map_eq_some_iff.2 ⟨r, hr, (Prod.mk.inj heq).2⟩⟩
    · rintro ⟨-, h⟩
      obtain ⟨r, hr, rfl⟩ := Option.map_eq_some_iff.1 h
      have hfound := List.find?_some hr
      exact ⟨r, hr, by rw [beq_iff_eq.1 hfound]⟩
  | true =>
    refine iff_of_false ?_ fun h => Bool.noConfusion h.1
    rintro ⟨r, hr, heq⟩
    have hfound := List.find?_some hr
    obtain ⟨hfresh, hlocation⟩ := of_decide_eq_true hfound
    rw [beq_iff_eq.1 hlocation, hloaded] at hfresh
    cases hfresh

/-- The tree of a linkbase, which stands in a schema that is kept or is a document of its own. -/
def tree? (store : Store) (embedded : SortedMap String Markup.Node) (p : String × Bool) : Option Markup.Node :=
  if p.2 then embedded.get? p.1 else (store.document p.1).toOption

theorem readTree_eq (store : Store) (d : Discovery) (location : String) (embedded : Bool) :
    (d.readTree store location embedded).2 = tree? store d.embedded (location, embedded) ∧
      (d.readTree store location embedded).1.embedded = d.embedded := by
  unfold readTree tree?
  dsimp only
  split
  · exact ⟨rfl, rfl⟩
  · split
    · rename_i h
      exact ⟨by rw [h]; rfl, rfl⟩
    · rename_i h
      exact ⟨by rw [h]; rfl, rfl⟩

theorem readTrees_eq (store : Store) (d : Discovery) (pending : List (String × Bool)) :
    (d.readTrees store pending).2 = (pending.filterMap fun p => (tree? store d.embedded p).map (p.1, ·)) ∧
      (d.readTrees store pending).1.embedded = d.embedded := by
  induction pending generalizing d with
  | nil => exact ⟨rfl, rfl⟩
  | cons p rest ih =>
    obtain ⟨location, embedded⟩ := p
    obtain ⟨htree, hembedded⟩ := readTree_eq store d location embedded
    obtain ⟨htrees, hrest⟩ := ih (d.readTree store location embedded).1
    refine ⟨?_, hrest.trans hembedded⟩
    rw [readTrees, List.filterMap_cons]
    dsimp only
    rw [htree, htrees, hembedded]
    cases tree? store d.embedded (location, embedded) <;> rfl

/-- Taking linkbases changes nothing about the set, and notes the locations. -/
theorem takeLinkbases_fst (store : Store) (d : Discovery) :
    (d.takeLinkbases store).1.dts = d.dts ∧ (d.takeLinkbases store).1.embedded = d.embedded ∧
      (d.takeLinkbases store).1.loaded = d.loaded.insertAll (d.unloaded.map (·.1)) :=
  have hsame := readTrees_dts store { d with loaded := d.loaded.insertAll (d.unloaded.map (·.1)) } d.unloaded
  ⟨hsame.1, (readTrees_eq store _ _).2, hsame.2⟩

theorem takeLinkbases_snd (store : Store) (d : Discovery) :
    (d.takeLinkbases store).2 = d.unloaded.filterMap fun p => (tree? store d.embedded p).map (p.1, ·) :=
  (readTrees_eq store _ _).1

theorem nodup_takeLinkbases (store : Store) (d : Discovery) : ((d.takeLinkbases store).2.map (·.1)).Nodup := by
  have hsub (ps : List (String × Bool)) :
      ((ps.filterMap fun p => (tree? store d.embedded p).map (p.1, ·)).map (·.1)).Sublist (ps.map (·.1)) := by
    induction ps with
    | nil => exact List.Sublist.slnil
    | cons p ps ih =>
      rw [List.filterMap_cons, List.map_cons]
      cases tree? store d.embedded p with
      | none => exact ih.cons _
      | some tree => exact ih.cons_cons _
  rw [takeLinkbases_snd]
  exact (hsub d.unloaded).nodup d.nodup_unloaded

theorem mem_takeLinkbases {store : Store} {d : Discovery} {location : String} {tree : Markup.Node} :
    (location, tree) ∈ (d.takeLinkbases store).2 ↔
      ∃ embedded, (location, embedded) ∈ d.unloaded ∧ tree? store d.embedded (location, embedded) = some tree := by
  rw [takeLinkbases_snd, List.mem_filterMap]
  constructor
  · rintro ⟨⟨l, embedded⟩, hmem, htree⟩
    obtain ⟨tree', htree', heq⟩ := Option.map_eq_some_iff.1 htree
    cases heq
    exact ⟨embedded, hmem, htree'⟩
  · rintro ⟨embedded, hmem, htree⟩
    exact ⟨(location, embedded), hmem, by rw [htree]; rfl⟩

/-- The documents that linkbases refer to are pending, unless they were seen or taken. -/
theorem exists_mem_targets_iff {d : Discovery} {seen : SortedSet String} {trees : List (String × Markup.Node)}
    {l : String} : (∃ p ∈ d.targets seen trees, p.location = l) ↔ ∃ linkbase ∈ trees,
      ∃ m ∈ referenced linkbase.1 linkbase.2, (seen.contains m = false ∧ d.loaded.contains m = false) ∧
        Location.normalize m = l := by
  unfold targets
  simp only [List.mem_flatMap, List.mem_map, List.mem_filter, Bool.and_eq_true, Bool.not_eq_true']
  constructor
  · rintro ⟨p, ⟨linkbase, hlinkbase, m, ⟨hm, hfresh⟩, rfl⟩, rfl⟩
    exact ⟨linkbase, hlinkbase, m, hm, hfresh, rfl⟩
  · rintro ⟨linkbase, hlinkbase, m, hm, hfresh, rfl⟩
    exact ⟨_, ⟨linkbase, hlinkbase, m, ⟨hm, hfresh⟩, rfl⟩, rfl⟩

theorem origin_of_mem_targets {d : Discovery} {seen : SortedSet String} {trees : List (String × Markup.Node)}
    {p : Pending} (h : p ∈ d.targets seen trees) : p.origin = .locator := by
  obtain ⟨linkbase, -, h⟩ := List.mem_flatMap.1 h
  obtain ⟨m, -, rfl⟩ := List.mem_map.1 h
  rfl

/-- Linkbases add their links in turn, all by one registry. -/
theorem dts_addLinkbases (d : Discovery) (linkbases : List (String × Markup.Node)) :
    (d.addLinkbases linkbases).dts.registry = d.dts.registry ∧
      (d.addLinkbases linkbases).dts.links = d.dts.links ++
        linkbases.flatMap fun l => (ExtendedLink.readAll d.dts.registry l.1 l.2).value := by
  induction linkbases generalizing d with
  | nil => exact ⟨rfl, (List.append_nil _).symm⟩
  | cons linkbase rest ih =>
    obtain ⟨hregistry, hlinks⟩ := ih (d.addLinkbase linkbase)
    refine ⟨hregistry, hlinks.trans ?_⟩
    rw [List.flatMap_cons, ← List.append_assoc]
    rfl

/-- A round adds the links of the linkbases that it takes. -/
theorem links_round (store : Store) (locators : Bool) (seen : SortedSet String) (d : Discovery) :
    (round store locators seen d).2.loaded = (d.takeLinkbases store).1.loaded ∧
      (round store locators seen d).2.dts.links = d.dts.links ++ (d.takeLinkbases store).2.flatMap fun l =>
        (ExtendedLink.readAll (round store locators seen d).2.dts.registry l.1 l.2).value := by
  obtain ⟨hlinks, hloaded⟩ := links_drain store seen (d.takeLinkbases store).1
    (if locators then (d.takeLinkbases store).1.targets seen (d.takeLinkbases store).2 else [])
  obtain ⟨hregistry, hadded⟩ := dts_addLinkbases (drain store seen (d.takeLinkbases store).1
    (if locators then (d.takeLinkbases store).1.targets seen (d.takeLinkbases store).2 else [])).2
    (d.takeLinkbases store).2
  refine ⟨(addLinkbases_loaded _ _).1.trans hloaded, ?_⟩
  rw [hlinks, (takeLinkbases_fst store d).1] at hadded
  unfold round
  dsimp only
  rw [hadded, hregistry]

/-- Whether the schemas kept for their linkbases are those of the store. -/
def Kept (store : Store) (d : Discovery) : Prop :=
  ∀ l root, d.embedded.get? l = some root → store.document l = .ok root

/-- The tree of a linkbase is that of the document at its location. -/
theorem Kept.document {store : Store} {d : Discovery} (h : Kept store d) {linkbase : String × Markup.Node}
    (hmem : linkbase ∈ (d.takeLinkbases store).2) : store.document linkbase.1 = .ok linkbase.2 := by
  obtain ⟨location, tree⟩ := linkbase
  obtain ⟨embedded, -, htree⟩ := mem_takeLinkbases.1 hmem
  cases embedded with
  | true => exact h location tree htree
  | false =>
    change (store.document location).toOption = some tree at htree
    cases hread : store.document location with
    | error f =>
      rw [hread] at htree
      cases htree
    | ok root =>
      rw [hread] at htree
      cases htree
      rfl

/-- How a discovery lies in the store: the schemas seen belong to taxonomies, the schemas kept for their
linkbases are those of the store, and only linkbases of records have been taken. -/
structure Grounded (store : Store) (seen : SortedSet String) (d : Discovery) : Prop where
  located : ∀ {l}, seen.contains l = true → store.schema? l ≠ none → ∃ i, d.dts.byLocation.get? l = some i
  kept : ∀ {l root}, d.embedded.get? l = some root →
    store.document l = .ok root ∧ ∃ i, d.dts.byLocation.get? l = some i
  normal : ∀ {i j r}, d.dts.record? i j = some r → Location.normalize r.location = r.location
  embedded : ∀ {i j r}, d.dts.record? i j = some r → r.embedded = true →
    ∃ root, d.embedded.get? r.location = some root
  recorded : ∀ {l}, d.loaded.contains l = true → ∃ i j r, d.dts.record? i j = some r ∧ r.location = l

theorem grounded_empty (store : Store) (journal : Journal) : Grounded store ∅ { dts := {}, journal := journal } where
  located h := by cases h
  kept h := by cases h
  normal h := by cases h
  embedded h := by cases h
  recorded h := by cases h

/-- Where a document could be taken in, it still belongs to a taxonomy afterwards. -/
theorem exists_byLocation_of_enter {d d' : Discovery} {location : String} {origin : Origin} {root : Markup.Node}
    {i : Nat} {more : List Pending} (h : d.enter location origin root = .ok (d', i, more)) {l : String}
    (hl : l = location ∨ ∃ j, d.dts.byLocation.get? l = some j) : ∃ j, d'.dts.byLocation.get? l = some j := by
  rw [byLocation_of_enter h]
  by_cases heq : l = location
  · subst heq
    exact ⟨i, SortedMap.get?_insert_self _ _ _⟩
  · rw [SortedMap.get?_insert_of_ne _ _ heq]
    exact hl.resolve_left heq

theorem embedded_of_enter {d d' : Discovery} {location : String} {origin : Origin} {root : Markup.Node} {i : Nat}
    {more : List Pending} (h : d.enter location origin root = .ok (d', i, more)) :
    d'.embedded = d.embedded ∨ d'.embedded = d.embedded.insert location root := by
  obtain ⟨_, s, ds, hread, -, ⟨rfl, -, -⟩ | ⟨rfl, -, -⟩ | ⟨rfl, -, -, -⟩⟩ := enter_cases h
  · rw [embedded_addSchema, Schema.location_of_read hread]
    split
    · exact .inr rfl
    · exact .inl rfl
  · exact .inl rfl
  · rw [embedded_addSchema, Schema.location_of_read hread]
    split
    · exact .inr rfl
    · exact .inl rfl

theorem Grounded.enter {store : Store} {seen : SortedSet String} {d d' : Discovery} (h : Grounded store seen d)
    {location : String} (hnormal : Location.normalize location = location) {origin : Origin} {root : Markup.Node}
    (hdocument : store.document location = .ok root) {k : Nat} {more : List Pending}
    (henter : d.enter location origin root = .ok (d', k, more)) : Grounded store (seen.insert location) d' := by
  have hold {l : String} {root' : Markup.Node} (hl : d.embedded.get? l = some root') :
      ∃ root'', d'.embedded.get? l = some root'' := by
    rcases embedded_of_enter henter with heq | heq
    · exact ⟨root', heq ▸ hl⟩
    · rw [heq]
      by_cases hl' : l = location
      · subst hl'
        exact ⟨root, SortedMap.get?_insert_self _ _ _⟩
      · exact ⟨root', (SortedMap.get?_insert_of_ne _ _ hl').trans hl⟩
  refine ⟨fun {l} hl hschema => ?_, fun {l root'} hl => ?_, fun {i j r} hr => ?_, fun {i j r} hr hembedded => ?_,
    fun {l} hl => ?_⟩
  · exact exists_byLocation_of_enter henter
      ((SortedSet.mem_insert.1 hl).imp_right fun hl => h.located hl hschema)
  · rcases embedded_of_enter henter with heq | heq
    · rw [heq] at hl
      exact ⟨(h.kept hl).1, exists_byLocation_of_enter henter (.inr (h.kept hl).2)⟩
    · rw [heq] at hl
      by_cases hl' : l = location
      · subst hl'
        rw [SortedMap.get?_insert_self, Option.some_inj] at hl
        exact ⟨hl ▸ hdocument, exists_byLocation_of_enter henter (.inl rfl)⟩
      · rw [SortedMap.get?_insert_of_ne _ _ hl'] at hl
        exact ⟨(h.kept hl).1, exists_byLocation_of_enter henter (.inr (h.kept hl).2)⟩
  · rcases record?_of_enter henter hnormal hr with hr | ⟨-, -, hr, -⟩
    · exact h.normal hr
    · exact hr
  · rcases record?_of_enter henter hnormal hr with hr | ⟨-, -, -, hr⟩
    · obtain ⟨root', hroot'⟩ := h.embedded hr hembedded
      exact hold hroot'
    · obtain ⟨hlocation, hroot⟩ := hr hembedded
      exact ⟨root, hlocation ▸ hroot⟩
  · rw [(links_of_enter henter).2] at hl
    obtain ⟨i, j, r, hr, rfl⟩ := h.recorded hl
    exact ⟨i, j, r, record?_of_enter_of_some henter hr, rfl⟩

theorem stable_grounded (store : Store) : Stable store fun seen _ d => Grounded store seen d where
  skip h _ := h
  leave {seen p queue d d'} h _ hnone hdts hloaded hembedded := by
    refine ⟨fun {l} hl hschema => ?_, fun hl => ?_, fun hr => h.normal (hdts ▸ hr), fun hr he => ?_, fun hl => ?_⟩
    · rcases SortedSet.mem_insert.1 hl with rfl | hl
      · exact absurd hnone hschema
      · exact hdts ▸ h.located hl hschema
    · exact hdts ▸ h.kept (hembedded ▸ hl)
    · exact hembedded ▸ h.embedded (hdts ▸ hr) he
    · exact hdts ▸ h.recorded (hloaded ▸ hl)
  enter {seen p queue d d' i more root} h _ hdocument henter := by
    have hasked : Grounded store seen (d.ask p.location) :=
      ⟨h.located, h.kept, h.normal, h.embedded, h.recorded⟩
    exact hasked.enter p.isNormal hdocument henter
  main _ h := ⟨h.located, h.kept, h.normal, h.embedded, h.recorded⟩

theorem Grounded.takeLinkbases {store : Store} {seen : SortedSet String} {d : Discovery} (h : Grounded store seen d) :
    Grounded store seen (d.takeLinkbases store).1 := by
  obtain ⟨hdts, hembedded, hloaded⟩ := takeLinkbases_fst store d
  refine ⟨hdts ▸ h.located, hdts ▸ hembedded ▸ h.kept, hdts ▸ h.normal, hdts ▸ hembedded ▸ h.embedded, fun {l} hl => ?_⟩
  rw [hloaded] at hl
  rw [hdts]
  rcases SortedSet.mem_insertAll.1 hl with hl | hl
  · obtain ⟨p, hp, rfl⟩ := List.mem_map.1 hl
    obtain ⟨⟨i, j, r, hr, hlocation, -⟩, -⟩ := exists_record?_of_mem_unloaded hp
    exact ⟨i, j, r, hr, hlocation⟩
  · exact h.recorded hl

/-- The tree of a linkbase is that of the document at its location, even if it stands in a schema. -/
theorem Grounded.mem_takeLinkbases_iff {store : Store} {seen : SortedSet String} {d : Discovery}
    (h : Grounded store seen d) {linkbase : String × Markup.Node} : linkbase ∈ (d.takeLinkbases store).2 ↔
      linkbase.1 ∈ d.unloaded.map (·.1) ∧ store.document linkbase.1 = .ok linkbase.2 := by
  obtain ⟨location, tree⟩ := linkbase
  constructor
  · intro hmem
    obtain ⟨embedded, hunloaded, -⟩ := mem_takeLinkbases.1 hmem
    have hkept : Kept store d := fun l root hl => (h.kept hl).1
    exact ⟨List.mem_map.2 ⟨_, hunloaded, rfl⟩, hkept.document hmem⟩
  · rintro ⟨hmem, hdocument⟩
    obtain ⟨⟨_, embedded⟩, hunloaded, rfl⟩ := List.mem_map.1 hmem
    refine mem_takeLinkbases.2 ⟨embedded, hunloaded, ?_⟩
    dsimp only at hdocument ⊢
    cases embedded with
    | true =>
      obtain ⟨⟨i, j, r, hr, rfl, hembedded⟩, -⟩ := exists_record?_of_mem_unloaded hunloaded
      obtain ⟨root, hroot⟩ := h.embedded hr hembedded
      cases (h.kept hroot).1.symm.trans hdocument
      exact hroot
    | false =>
      unfold tree?
      rw [hdocument]
      rfl

theorem Grounded.addLinkbase {store : Store} {seen : SortedSet String} {d : Discovery} (h : Grounded store seen d)
    (linkbase : String × Markup.Node) : Grounded store seen (d.addLinkbase linkbase) := by
  -- places and locations of the records do not change
  have hrecord {i j : Nat} : ((d.addLinkbase linkbase).dts.record? i j).map (fun r => (r.location, r.embedded)) =
      (d.dts.record? i j).map fun r => (r.location, r.embedded) := by
    change ((d.dts.addLinkbase _ _).record? i j).map _ = _
    rw [Dts.record?_addLinkbase, Option.map_map]
    congr 1
    funext r
    dsimp only [Function.comp]
    split <;> rfl
  have hsame {e f : Dts} {i j : Nat} {r : LinkbaseRecord}
      (heq : (f.record? i j).map (fun r => (r.location, r.embedded)) =
        (e.record? i j).map fun r => (r.location, r.embedded)) (hr : f.record? i j = some r) :
      ∃ r', e.record? i j = some r' ∧ r'.location = r.location ∧ r'.embedded = r.embedded := by
    rw [hr, Option.map_some] at heq
    obtain ⟨r', hr', heq⟩ := Option.map_eq_some_iff.1 heq.symm
    exact ⟨r', hr', (Prod.mk.injEq .. ▸ heq).1, (Prod.mk.injEq .. ▸ heq).2⟩
  refine ⟨h.located, h.kept, fun {i j r} hr => ?_, fun {i j r} hr hembedded => ?_, fun {l} hl => ?_⟩
  · obtain ⟨r', hr', hlocation, -⟩ := hsame hrecord hr
    exact hlocation ▸ h.normal hr'
  · obtain ⟨r', hr', hlocation, heq⟩ := hsame hrecord hr
    exact hlocation ▸ h.embedded hr' (heq.trans hembedded)
  · obtain ⟨i, j, r, hr, rfl⟩ := h.recorded hl
    obtain ⟨r', hr', hlocation, -⟩ := hsame hrecord.symm hr
    exact ⟨i, j, r', hr', hlocation⟩

theorem Grounded.round {store : Store} {seen : SortedSet String} {d : Discovery} (h : Grounded store seen d)
    (locators : Bool) : Grounded store (round store locators seen d).1 (round store locators seen d).2 := by
  have hdrained := (stable_grounded store).drain (if locators then
    (d.takeLinkbases store).1.targets seen (d.takeLinkbases store).2 else []) h.takeLinkbases
  exact List.foldlRecOn (motive := fun e => Grounded store _ e) _ _ hdrained fun e he l _ => he.addLinkbase l

end Discovery

end TaxonomySet
