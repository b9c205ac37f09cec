import TaxonomySet.Proofs.Dimension.Merging
import TaxonomySet.Proofs.Discovery.Attachment

namespace TaxonomySet

namespace Dts

/-- Whether every link belongs to some record. -/
def Attached (d : Dts) : Prop := ∀ x < d.links.length, ∃ i j r, d.record? i j = some r ∧ x ∈ r.links

/-- The links of the taxonomy with a number. -/
def linksAt (d : Dts) (i : Nat) : List ExtendedLink := ((d.taxonomies[i]?).map d.linksOf).getD []

theorem tables_index (d : Dts) : d.index.value.tables = Dimension.collect d.resolve d.links := rfl

theorem tablesOf_index (d : Dts) (i : Nat) :
    d.index.value.tablesOf i = Dimension.collect d.resolve (d.linksAt i) := by
  unfold Index.tablesOf linksAt
  change ((d.taxonomies.map fun t => Dimension.collect d.resolve (d.linksOf t))[i]?).getD ∅ = _
  rw [List.getElem?_map]
  cases d.taxonomies[i]? <;> rfl

theorem Attached.addLinkbase {d : Dts} (h : d.Attached) {location : String} (links : List ExtendedLink)
    (hrecord : ∃ i j r, d.record? i j = some r ∧ r.location = location) : (d.addLinkbase location links).Attached := by
  have hafter {i j : Nat} {r : LinkbaseRecord} (hr : d.record? i j = some r) :
      (d.addLinkbase location links).record? i j =
        some (if r.location = location then { r with links := r.links ++ d.nextLinks links } else r) :=
    (d.record?_addLinkbase location links i j).trans (by rw [hr, Option.map_some])
  intro x hx
  rcases Nat.lt_or_ge x d.links.length with hlt | hge
  · obtain ⟨i, j, r, hr, hmem⟩ := h x hlt
    refine ⟨i, j, _, hafter hr, ?_⟩
    split
    · exact List.mem_append_left _ hmem
    · exact hmem
  · obtain ⟨i, j, r, hr, hlocation⟩ := hrecord
    refine ⟨i, j, _, hafter hr, ?_⟩
    rw [if_pos hlocation]
    have hlength : x < d.links.length + links.length := by rwa [← List.length_append]
    refine List.mem_append_right _ (List.mem_map.2 ⟨x - d.links.length, List.mem_range.2 ?_, ?_⟩) <;> omega

/-- In a set whose links all belong to records, the links are those of the taxonomies. -/
theorem Attached.mem_links_iff {d : Dts} (h : d.Attached) {l : ExtendedLink} :
    l ∈ d.links ↔ ∃ i < d.taxonomies.length, l ∈ d.linksAt i := by
  constructor
  · intro hl
    obtain ⟨x, hx⟩ := List.mem_iff_getElem?.1 hl
    obtain ⟨i, j, r, hr, hmem⟩ := h x (List.getElem?_eq_some_iff.1 hx).1
    obtain ⟨t, ht, hj⟩ := record?_eq_some_iff.1 hr
    refine ⟨i, (List.getElem?_eq_some_iff.1 ht).1, ?_⟩
    unfold linksAt
    rw [ht]
    exact List.mem_filterMap.2 ⟨x, List.mem_flatMap.2 ⟨r, List.mem_of_getElem? hj, hmem⟩, hx⟩
  · rintro ⟨i, hi, hl⟩
    unfold linksAt at hl
    rw [List.getElem?_eq_getElem hi] at hl
    obtain ⟨x, -, hx⟩ := List.mem_filterMap.1 hl
    exact List.mem_of_getElem? hx

end Dts

namespace Discovery

theorem Widens.attached {d e : Discovery} (h : Widens d e) (hd : d.dts.Attached) : e.dts.Attached := by
  intro x hx
  rw [h.links] at hx
  obtain ⟨i, j, r, hr, hmem⟩ := hd x hx
  exact ⟨i, j, r, h.keeps hr, hmem⟩

/-- Linkbases that are referred to leave no link without a record. -/
theorem attached_addLinkbases {d : Discovery} (h : d.dts.Attached) {linkbases : List (String × Markup.Node)}
    (hrecords : ∀ linkbase ∈ linkbases, linkbase.1 ∈ d.recordLocations) : (d.addLinkbases linkbases).dts.Attached := by
  have hall : (d.addLinkbases linkbases).dts.Attached ∧
      (d.addLinkbases linkbases).recordLocations = d.recordLocations := by
    refine List.foldlRecOn (motive := fun e : Discovery => e.dts.Attached ∧ e.recordLocations = d.recordLocations) _ _
      ⟨h, rfl⟩ fun e he linkbase hmem => ?_
    obtain ⟨hattached, hsame⟩ := he
    refine ⟨hattached.addLinkbase _ ?_, (addLinkbase_loaded e linkbase).2.trans hsame⟩
    exact mem_recordLocations.1 (hsame ▸ hrecords linkbase hmem)
  exact hall.1

theorem attached_round {store : Store} {locators : Bool} {seen : SortedSet String} {d : Discovery}
    (h : d.dts.Attached) : (round store locators seen d).2.dts.Attached := by
  have hwidens := widens_drain store seen (d.takeLinkbases store).1
    (if locators then (d.takeLinkbases store).1.targets seen (d.takeLinkbases store).2 else [])
  obtain ⟨hdts, -, -⟩ := takeLinkbases_fst store d
  refine attached_addLinkbases (hwidens.attached (hdts ▸ h)) fun linkbase hmem => ?_
  obtain ⟨embedded, hunloaded, -⟩ := mem_takeLinkbases.1 hmem
  obtain ⟨⟨i, j, r, hr, hlocation, -⟩, -⟩ := exists_record?_of_mem_unloaded hunloaded
  exact mem_recordLocations.2 ⟨i, j, r, hwidens.keeps (hdts ▸ hr), hlocation⟩

/-- A load leaves no link without a record. -/
theorem attached_load {store : Store} {options : Options} {entries : List String} {journal : Journal}
    {receipt : Receipt} (h : (load store options entries { dts := {}, journal := journal }).2 = .ok receipt) :
    (load store options entries { dts := {}, journal := journal }).1.dts.Attached := by
  obtain ⟨p, henter, hload⟩ := load_eq_ok h
  have hstarted : (started store p).2.dts.Attached := fun x hx => by
    rw [(links_started henter).1] at hx
    cases hx
  rw [hload]
  split
  · exact (rounds_induction (P := fun _ d => d.dts.Attached) attached_round hstarted).1
  · exact hstarted

end Discovery

namespace Dimension

theorem mem_contributions_congr {ι : Type} {resolve : Resolver} {links : List ExtendedLink} {is : List ι}
    {part : ι → List ExtendedLink} (h : ∀ l, l ∈ links ↔ ∃ i ∈ is, l ∈ part i) {c : String × List Edge} :
    c ∈ contributions resolve links ↔ ∃ i ∈ is, c ∈ contributions resolve (part i) := by
  unfold contributions
  simp only [List.mem_flatMap, h]
  constructor
  · rintro ⟨l, ⟨i, hi, hl⟩, hc⟩
    exact ⟨i, hi, l, hl, hc⟩
  · rintro ⟨i, hi, l, hl, hc⟩
    exact ⟨l, ⟨i, hi, hl⟩, hc⟩

theorem isSome_get?_collect {resolve : Resolver} {links : List ExtendedLink} {role : String} :
    ((collect resolve links).get? role).isSome = true ↔ ∃ c ∈ contributions resolve links, c.1 = role := by
  rw [get?_collect]
  split
  · rename_i hnil
    refine iff_of_false Bool.false_ne_true ?_
    rintro ⟨c, hc, hrole⟩
    exact List.filter_eq_nil_iff.1 hnil c hc (beq_iff_eq.2 hrole)
  · rename_i hne
    refine iff_of_true rfl ?_
    obtain ⟨c, hc⟩ := List.exists_mem_of_ne_nil _ hne
    obtain ⟨hmem, hrole⟩ := List.mem_filter.1 hc
    exact ⟨c, hmem, beq_iff_eq.1 hrole⟩

theorem mem_arisingEdges {resolve : Resolver} {links : List ExtendedLink} {role : String} {e : Edge} :
    e ∈ arisingEdges resolve links role ↔ ∃ c ∈ contributions resolve links, c.1 = role ∧ e ∈ c.2 := by
  unfold arisingEdges
  simp only [List.mem_flatMap, List.mem_filter, beq_iff_eq, and_assoc]

/-- Merging the tables of parts of the links that together are all of them shows the keys that the table of all
links shows, however the parts overlap and in whatever order they are merged. -/
theorem mergeAll_collect {ι : Type} (resolve : Resolver) {links : List ExtendedLink} {is : List ι}
    {part : ι → List ExtendedLink} (h : ∀ l, l ∈ links ↔ ∃ i ∈ is, l ∈ part i) (role : String) :
    Option.Rel (fun t u : Table => ∀ k, k ∈ t.keys ↔ k ∈ u.keys)
      (Table.mergeAll (is.filterMap fun i => (collect resolve (part i)).get? role))
      ((collect resolve links).get? role) := by
  have hpresent : (Table.mergeAll (is.filterMap fun i => (collect resolve (part i)).get? role)).isSome = true ↔
      ((collect resolve links).get? role).isSome = true := by
    rw [Table.isSome_mergeAll, isSome_get?_collect]
    simp only [List.mem_filterMap, mem_contributions_congr h]
    constructor
    · rintro ⟨t, i, hi, ht⟩
      obtain ⟨c, hc, hrole⟩ := isSome_get?_collect.1 (Option.isSome_of_eq_some ht)
      exact ⟨c, ⟨i, hi, hc⟩, hrole⟩
    · rintro ⟨c, ⟨i, hi, hc⟩, hrole⟩
      obtain ⟨t, ht⟩ := Option.isSome_iff_exists.1 (isSome_get?_collect.2 ⟨c, hc, hrole⟩)
      exact ⟨t, i, hi, ht⟩
  have harising (e : Edge) : (e ∈ is.flatMap fun i => arisingEdges resolve (part i) role) ↔
      e ∈ arisingEdges resolve links role := by
    simp only [List.mem_flatMap, mem_arisingEdges, mem_contributions_congr h]
    constructor
    · rintro ⟨i, hi, c, hc, he⟩
      exact ⟨c, ⟨i, hi, hc⟩, he⟩
    · rintro ⟨c, ⟨i, hi, hc⟩, he⟩
      exact ⟨i, hi, c, hc, he⟩
  cases hmerged : Table.mergeAll (is.filterMap fun i => (collect resolve (part i)).get? role) <;>
    cases hwhole : (collect resolve links).get? role <;> rw [hmerged, hwhole] at hpresent
  case none.none => exact .none
  case none.some => cases hpresent.2 rfl
  case some.none => cases hpresent.1 rfl
  case some.some t u =>
    have ht : t.Gathers (is.flatMap fun i => arisingEdges resolve (part i) role) :=
      Table.gathers_mergeAll Table.gathers_of_get?_collect arisingEdges_eq_nil is hmerged
    exact .some fun k => ht.mem_keys_congr (Table.gathers_of_get?_collect hwhole) harising

end Dimension

namespace Sample

set_option maxRecDepth 100000 in
/-- The taxonomy of the entry comes first, and the one that it imports second. -/
theorem load_contested :
    (∃ receipt, (Session.load {} (Shelf.ofTexts contested).store {} ["b.xsd"]).2.2 = .ok receipt) ∧
    let d := (Session.load {} (Shelf.ofTexts contested).store {} ["b.xsd"]).1.dts
    d.taxonomies.map (·.ns) = ["b", "a"] ∧
      ((Dimension.collect d.resolve d.links).get? "http://www.xbrl.org/2003/role/link").isSome = true := by
  refine load_ofTexts contested (fun d => d.taxonomies.map (·.ns) = _ ∧
    ((Dimension.collect d.resolve d.links).get? _).isSome = true) 5 ?_ ?_
  all_goals
    unfold contested repeating memberSchema linkbaseOf memberLink linkbaseRef
    simp only [List.map_cons, List.map_nil]
    repeat rw [String.toList_append]
    repeat rw [String.toList_ofList]
    decide +kernel

end Sample

namespace Session

/-- The tables of a loaded set and those of its taxonomies agree, though a link can belong to several taxonomies.
The set has a table of a role exactly if some taxonomy has one. The tables that the taxonomies have, merged in any
order, show edges of the same keys as the table of the set. -/
theorem mergeAll_tablesOf {store : Store} {options : Discovery.Options} {entries : List String} {journal : Journal}
    {receipt : Discovery.Receipt} (hload : (load { journal := journal } store options entries).2.2 = .ok receipt)
    (role : String) {order : List Nat}
    (horder : order.Perm (List.range (load { journal := journal } store options entries).1.dts.taxonomies.length)) :
    let s := (load { journal := journal } store options entries).1
    ((s.index.tables.get? role).isSome = true ↔
      ∃ i < s.dts.taxonomies.length, ((s.index.tablesOf i).get? role).isSome = true) ∧
    Option.Rel (fun merged whole : Dimension.Table => ∀ k, k ∈ merged.keys ↔ k ∈ whole.keys)
      (Dimension.Table.mergeAll (order.filterMap fun i => (s.index.tablesOf i).get? role))
      (s.index.tables.get? role) := by
  intro s
  obtain ⟨hresult, hdts⟩ := load_eq { journal := journal } store options entries
  have hattached : s.dts.Attached := by
    rw [show s.dts = _ from hdts]
    exact Discovery.attached_load (hresult.symm.trans hload)
  have htables : s.index.tables = Dimension.collect s.dts.resolve s.dts.links := by
    rw [show s.index = s.dts.index.value from index_load hload, Dts.tables_index]
  have htablesOf (i : Nat) : s.index.tablesOf i = Dimension.collect s.dts.resolve (s.dts.linksAt i) := by
    rw [show s.index = s.dts.index.value from index_load hload, Dts.tablesOf_index]
  have hlinks (l : ExtendedLink) : l ∈ s.dts.links ↔ ∃ i ∈ order, l ∈ s.dts.linksAt i := by
    rw [hattached.mem_links_iff]
    simp only [horder.mem_iff, List.mem_range]
    rfl
  simp only [htables, htablesOf]
  refine ⟨?_, Dimension.mergeAll_collect s.dts.resolve hlinks role⟩
  simp only [Dimension.isSome_get?_collect, Dimension.mem_contributions_congr hlinks, horder.mem_iff, List.mem_range]
  constructor
  · rintro ⟨c, ⟨i, hi, hc⟩, hrole⟩
    exact ⟨i, hi, c, hc, hrole⟩
  · rintro ⟨i, hi, c, hc, hrole⟩
    exact ⟨c, ⟨i, hi, hc⟩, hrole⟩

/-- The table of the imported taxonomy, merged with that of the one that takes its arc back, agrees with the
table of the set. -/
theorem mergeAll_tablesOf_contested :
    ∃ s role, s = (load {} (Shelf.ofTexts Sample.contested).store {} ["b.xsd"]).1 ∧
      (∃ receipt, (load {} (Shelf.ofTexts Sample.contested).store {} ["b.xsd"]).2.2 = .ok receipt) ∧
      [1, 0].Perm (List.range s.dts.taxonomies.length) ∧ (s.index.tables.get? role).isSome = true ∧
      Option.Rel (fun merged whole : Dimension.Table => ∀ k, k ∈ merged.keys ↔ k ∈ whole.keys)
        (Dimension.Table.mergeAll ([1, 0].filterMap fun i => (s.index.tablesOf i).get? role))
        (s.index.tables.get? role) := by
  obtain ⟨⟨receipt, hload⟩, hns, hsome⟩ := Sample.load_contested
  have hlength := congrArg List.length hns
  rw [List.length_map] at hlength
  have horder : [1, 0].Perm
      (List.range (load {} (Shelf.ofTexts Sample.contested).store {} ["b.xsd"]).1.dts.taxonomies.length) := by
    rw [hlength]
    decide
  refine ⟨_, "http://www.xbrl.org/2003/role/link", rfl, ⟨receipt, hload⟩, horder, ?_,
    (mergeAll_tablesOf hload _ horder).2⟩
  rw [index_load hload, Dts.tables_index]
  exact hsome

end Session

end TaxonomySet
