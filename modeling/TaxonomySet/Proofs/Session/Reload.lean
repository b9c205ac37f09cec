import Mathlib.Data.List.Infix
import TaxonomySet.Proofs.Discovery.Failures
import TaxonomySet.Proofs.Discovery.Verdicts

namespace TaxonomySet

namespace Discovery

variable {store : Store}

/-- A load that succeeds could be made on top of any set. -/
theorem exists_load_eq_ok {options : Options} {entries : List String} {d : Discovery} {receipt : Receipt}
    (h : (load store options entries d).2 = .ok receipt) (again : Options) (start : Discovery) :
    ∃ receipt', (load store again entries start).2 = .ok receipt' := by
  have hne : entries ≠ [] := fun hnil => by
    rw [hnil] at h
    cases h
  cases hagain : (load store again entries start).2 with
  | ok receipt' => exact ⟨receipt', rfl⟩
  | error f =>
    have hfails : ∃ f', (load store options entries d).2 = .error f' :=
      (load_eq_error_iff hne d).2 ((load_eq_error_iff hne start).1 ⟨f, hagain⟩)
    obtain ⟨f', hf'⟩ := hfails
    rw [h] at hf'
    cases hf'

/-- What reading schemas leaves of the taxonomies of a set: their records. Only later taxonomies have schemas included
into them. Schemas are recognised by their namespaces and are not added again, but linkbases are found in the records
that are there and are read again. -/
structure Retains (base : Dts) (queue : List Pending) (d : Discovery) : Prop where
  length : base.taxonomies.length ≤ d.dts.taxonomies.length
  record : ∀ i < base.taxonomies.length, ∀ j, d.dts.record? i j = base.record? i j
  including : ∀ p ∈ queue, ∀ i, p.origin = .including i → base.taxonomies.length ≤ i

theorem record?_addSchema_of_ne {d : Discovery} {i k : Nat} (h : i ≠ k) (s : Schema) (root : Markup.Node) (j : Nat) :
    (d.addSchema k s root).dts.record? i j = d.dts.record? i j := by
  rw [record?_addSchema, if_neg h]

theorem Retains.enter {base : Dts} {p : Pending} {queue : List Pending} {d d' : Discovery}
    (h : Retains base (p :: queue) d) {root : Markup.Node} {k : Nat} {more : List Pending}
    (henter : d.enter p.location p.origin root = .ok (d', k, more)) : Retains base (queue ++ more) d' := by
  have hqueue {k : Nat} {s : Schema} (hk : base.taxonomies.length ≤ k) :
      ∀ q ∈ queue ++ pendingOf s k, ∀ i, q.origin = .including i → base.taxonomies.length ≤ i := by
    intro q hq i hi
    rcases List.mem_append.1 hq with hq | hq
    · exact h.including q (List.mem_cons_of_mem _ hq) i hi
    · exact mem_pendingOf hq hi ▸ hk
  have hregistered : (d.dts.registerLocation p.location k).taxonomies.length = d.dts.taxonomies.length :=
    List.length_modify _ _ _
  obtain ⟨_, s, ds, -, -, ⟨rfl, horigin, rfl⟩ | ⟨rfl, -, rfl⟩ | ⟨rfl, -, rfl, rfl⟩⟩ := enter_cases henter
  · have hk := h.including p List.mem_cons_self k horigin
    refine ⟨?_, fun i hi j => ?_, hqueue hk⟩
    · rw [length_taxonomies_addSchema]
      exact hregistered ▸ h.length
    · rw [record?_addSchema_of_ne (Nat.ne_of_lt (Nat.lt_of_lt_of_le hi hk))]
      exact (Dts.record?_registerLocation _ _ _ _ _).trans (h.record i hi j)
  · refine ⟨hregistered ▸ h.length, fun i hi j => ?_, fun q hq => ?_⟩
    · exact (Dts.record?_registerLocation _ _ _ _ _).trans (h.record i hi j)
    · rw [List.append_nil] at hq
      exact h.including q (List.mem_cons_of_mem _ hq)
  · refine ⟨?_, fun i hi j => ?_, hqueue h.length⟩
    · rw [length_taxonomies_addSchema]
      change _ ≤ (d.dts.taxonomies ++ [_]).length
      rw [List.length_append]
      exact Nat.le_add_right_of_le h.length
    · rw [record?_addSchema_of_ne (Nat.ne_of_lt (Nat.lt_of_lt_of_le hi h.length))]
      exact (Dts.record?_addTaxonomy _ rfl _ _).trans (h.record i hi j)

theorem stable_retains (store : Store) (base : Dts) : Stable store fun _ queue d => Retains base queue d where
  skip h _ := ⟨h.length, h.record, fun q hq => h.including q (List.mem_cons_of_mem _ hq)⟩
  leave h _ _ hdts _ _ := ⟨hdts ▸ h.length, hdts ▸ h.record, fun q hq => h.including q (List.mem_cons_of_mem _ hq)⟩
  enter {seen p queue d d' i more root} h _ _ henter := by
    have hasked : Retains base (p :: queue) (d.ask p.location) := ⟨h.length, h.record, h.including⟩
    exact hasked.enter henter
  main _ h := ⟨h.length, h.record, h.including⟩

/-- The first record of a linkbase remains the first. -/
theorem Retains.firstRecord? {base : Dts} {queue : List Pending} {d : Discovery} (h : Retains base queue d)
    {location : String} {r : LinkbaseRecord} (hr : base.firstRecord? location = some r) :
    d.dts.firstRecord? location = some r := by
  have hprefix : base.taxonomies.map (·.linkbases) <+: d.dts.taxonomies.map (·.linkbases) := by
    refine List.prefix_iff_getElem?.2 fun i hi => ?_
    rw [List.length_map] at hi
    have hi' := Nat.lt_of_lt_of_le hi h.length
    rw [List.getElem?_map, List.getElem?_eq_getElem hi', List.getElem_map, Option.map_some, Option.some_inj]
    refine List.ext_getElem? fun j => ?_
    have hrecord := h.record i hi j
    unfold Dts.record? at hrecord
    rwa [List.getElem?_eq_getElem hi, List.getElem?_eq_getElem hi'] at hrecord
  unfold Dts.firstRecord? at hr ⊢
  rw [List.flatMap_def] at hr ⊢
  exact (List.IsPrefix.flatten hprefix).find?_eq_some hr

theorem exists_firstRecord? {d : Discovery} {location : String} (h : location ∈ d.recordLocations) :
    ∃ r, d.dts.firstRecord? location = some r := by
  obtain ⟨t, ht, hl⟩ := List.mem_flatMap.1 h
  obtain ⟨r, hr, rfl⟩ := List.mem_map.1 hl
  refine Option.isSome_iff_exists.1 (List.find?_isSome.2 ⟨r, List.mem_flatMap.2 ⟨t, ht, hr⟩, ?_⟩)
  exact beq_self_eq_true _

variable {options : Options} {entries : List String}

theorem isSome_tree?_iff {embedded : SortedMap String Markup.Node} {location : String} {tree : Markup.Node}
    (hdocument : store.document location = .ok tree) (isEmbedded : Bool) :
    (tree? store embedded (location, isEmbedded)).isSome = true ↔
      ¬ (isEmbedded = true ∧ embedded.get? location = none) := by
  cases isEmbedded with
  | true =>
    rw [and_iff_right rfl]
    exact Option.isSome_iff_ne_none
  | false =>
    unfold tree?
    rw [hdocument]
    exact iff_of_true rfl fun h => Bool.false_ne_true h.1

/-- A load starts with the records of the set that it is made on, and as if no linkbase had been taken. -/
theorem retains_started (store : Store) (entries : List String) (base : Dts) (journal : Journal) :
    let start := (started store (enterEntries store
      { discovery := { dts := base, journal := journal } } entries).1).2
    Retains base [] start ∧ start.loaded = ∅ := by
  have hpush {queue : List Pending} {d : Discovery} (h : Retains base queue d) (e : String) :
      Retains base (.of e .entry :: queue) d := by
    refine ⟨h.length, h.record, fun p hp i hi => ?_⟩
    rcases List.mem_cons.1 hp with rfl | hp
    · cases hi
    · exact h.including p hp i hi
  have hbase : Retains base [] { dts := base, journal := journal } :=
    ⟨Nat.le_refl _, fun _ _ _ => rfl, fun p hp => by cases hp⟩
  have henter : enterEntries store { discovery := { dts := base, journal := journal } } entries = (_, _) := rfl
  exact ⟨(stable_retains store base).started (fun h e _ => hpush h e) hbase henter, (links_started henter).2⟩

/-- A linkbase that a set refers to is taken by a load on top of it exactly if linkbases are wanted and there is a
tree for its first record: that of a document, or of a schema that has been included anew. -/
theorem exists_mem_taken_iff {base : Dts} {journal : Journal} {location : String} {r : LinkbaseRecord}
    (hr : base.firstRecord? location = some r) :
    (∃ t ∈ taken store options entries { dts := base, journal := journal }, t.location = location) ↔
      options.linkbases = true ∧ (tree? store (started store (enterEntries store
        { discovery := { dts := base, journal := journal } } entries).1).2.embedded
          (location, r.embedded)).isSome = true := by
  unfold taken
  split
  · rename_i hlinkbases
    obtain ⟨hretains, hloaded⟩ := retains_started store entries base journal
    refine (exists_taking_iff (mem_unloaded_iff.2 ⟨?_, ?_⟩)).trans (and_iff_right hlinkbases).symm
    · rw [hloaded]
      rfl
    · rw [hretains.firstRecord? hr]
      rfl
  · rename_i hlinkbases
    exact iff_of_false (fun ⟨t, ht, _⟩ => by cases ht) fun h => hlinkbases h.1

theorem mem_recordLocations_of_mem_taken {d : Discovery} {receipt : Receipt}
    (h : (load store options entries d).2 = .ok receipt) {t : Taking} (ht : t ∈ taken store options entries d) :
    t.location ∈ (load store options entries d).1.recordLocations := by
  obtain ⟨p, henter, hload⟩ := load_eq_ok h
  unfold taken at ht
  rw [hload]
  rw [henter] at ht
  split at ht
  · rw [if_pos ‹_›]
    exact mem_recordLocations_of_mem_takings store options.locators ht
  · cases ht

/-- A linkbase that is taken again has the same tree, and is read by a registry that extends the one before. -/
theorem tree_of_mem_taken_again {base : Dts} {journal : Journal} {receipt : Receipt}
    (hok : (load store options entries { dts := base, journal := journal }).2 = .ok receipt) {t u : Taking}
    (hdocument : store.document t.location = .ok t.tree) (hextends : base.registry.Extends t.registry)
    (hu : u ∈ taken store options entries { dts := base, journal := journal }) (hlocation : u.location = t.location) :
    u.tree = t.tree ∧ u.registry.Extends t.registry := by
  have hdocument' := document_of_mem_taken (fun _ _ h => by cases h) hu
  rw [hlocation, hdocument] at hdocument'
  exact ⟨(Except.ok.inj hdocument').symm, (extends_taken hok u hu).1.trans hextends⟩

/-- A document with links that is taken again has more links than before. -/
theorem length_filter_links_lt {base : Dts} {journal : Journal} {receipt : Receipt}
    (hok : (load store options entries { dts := base, journal := journal }).2 = .ok receipt) {t : Taking}
    (hdocument : store.document t.location = .ok t.tree) (hextends : base.registry.Extends t.registry)
    (hlinks : t.links ≠ [])
    (htaken : ∃ u ∈ taken store options entries { dts := base, journal := journal }, u.location = t.location) :
    (base.links.filter (·.document == t.location)).length <
      ((load store options entries { dts := base, journal := journal }).1.dts.links.filter
        (·.document == t.location)).length := by
  obtain ⟨u, hu, hlocation⟩ := htaken
  obtain ⟨htree, hextends⟩ := tree_of_mem_taken_again hok hdocument hextends hu hlocation
  obtain ⟨key, hkey⟩ := Taking.links_ne_nil_iff.1 hlinks
  obtain ⟨l, hl⟩ := List.exists_mem_of_ne_nil _ (Taking.links_ne_nil_iff.2
    ⟨key, Taking.mem_keys_origins_of_extends hlocation htree hextends hkey⟩)
  have hnew : l ∈ ((taken store options entries { dts := base, journal := journal }).flatMap Taking.links).filter
      (·.document == t.location) := by
    refine List.mem_filter.2 ⟨List.mem_flatMap.2 ⟨u, hu, hl⟩, beq_iff_eq.2 ?_⟩
    exact (Taking.document_of_mem_links hl).trans hlocation
  rw [links_load hok, List.filter_append, List.length_append]
  exact Nat.lt_add_of_pos_right (List.length_pos_of_mem hnew)

end Discovery

namespace Sample

set_option maxRecDepth 100000 in
/-- The linkbase is a document of its own, with one link. -/
theorem load_contested_once :
    (∃ receipt, (Session.load {} (Shelf.ofTexts contested).store {} ["a.xsd"]).2.2 = .ok receipt) ∧
    let d := (Session.load {} (Shelf.ofTexts contested).store {} ["a.xsd"]).1.dts
    d.links.map (·.document) = ["l.xml"] ∧ (d.firstRecord? "l.xml").map (·.embedded) = some false := by
  refine load_ofTexts contested (fun d => d.links.map (·.document) = _ ∧
    (d.firstRecord? "l.xml").map (·.embedded) = _) 5 ?_ ?_
  all_goals
    unfold contested repeating memberSchema linkbaseOf memberLink linkbaseRef
    simp only [List.map_cons, List.map_nil]
    repeat rw [String.toList_append]
    repeat rw [String.toList_ofList]
    decide +kernel

set_option maxRecDepth 100000 in
theorem linkNodes_contested : ∃ tree, (Shelf.ofTexts contested).store.document "l.xml" = .ok tree ∧
    (ExtendedLink.linkNodes tree).length = 1 := by
  refine document_ofTexts contested (fun tree => (ExtendedLink.linkNodes tree).length = 1) ?_ ?_
  all_goals
    unfold contested repeating memberSchema linkbaseOf memberLink linkbaseRef
    simp only [List.map_cons, List.map_nil]
    repeat rw [String.toList_append]
    repeat rw [String.toList_ofList]
    decide +kernel

end Sample

namespace Session

open Discovery ExtendedLink

section

variable {store : Store} {options : Options} {entries : List String} {receipt : Receipt}

/-- The links of a first load are those of the linkbases that it takes. -/
theorem links_eq_flatMap_taken (hok : (Session.load {} store options entries).2.2 = .ok receipt) :
    (Session.load {} store options entries).1.dts.links =
      (taken store options entries { dts := {}, journal := {} }).flatMap Taking.links := by
  obtain ⟨hresult, hdts⟩ := load_eq {} store options entries
  rw [hdts, links_load (hresult.symm.trans hok)]
  exact List.nil_append _

/-- What the linkbases of a first load come to: each has a record, the tree of its document, and a registry that the
one after the load extends. -/
theorem taken_of_load (hok : (Session.load {} store options entries).2.2 = .ok receipt) {t : Taking}
    (ht : t ∈ taken store options entries { dts := {}, journal := {} }) :
    let d := (Session.load {} store options entries).1.dts
    store.document t.location = .ok t.tree ∧ d.registry.Extends t.registry ∧
      ∃ r, d.firstRecord? t.location = some r := by
  obtain ⟨hresult, hdts⟩ := load_eq {} store options entries
  have hload := hresult.symm.trans hok
  rw [hdts]
  exact ⟨document_of_mem_taken (fun _ _ h => by cases h) ht, (extends_taken hload t ht).2,
    exists_firstRecord? (mem_recordLocations_of_mem_taken hload ht)⟩

/-- A load that succeeds can be made again. -/
theorem exists_load_again (hok : (Session.load {} store options entries).2.2 = .ok receipt) (again : Options) :
    ∃ receipt', ((Session.load {} store options entries).1.load store again entries).2.2 = .ok receipt' := by
  rw [(load_eq _ store again entries).1]
  exact exists_load_eq_ok ((load_eq {} store options entries).1.symm.trans hok) again _

/-- A second load adds to the links of a linkbase that is a document of its own. -/
theorem length_filter_links_lt_load {again : Options} {more : List String} {receipt' : Receipt}
    (hok : (Session.load {} store options entries).2.2 = .ok receipt)
    (hok' : ((Session.load {} store options entries).1.load store again more).2.2 = .ok receipt')
    (hlinkbases : again.linkbases = true) {l : ExtendedLink}
    (hl : l ∈ (Session.load {} store options entries).1.dts.links) {r : LinkbaseRecord}
    (hr : (Session.load {} store options entries).1.dts.firstRecord? l.document = some r)
    (hembedded : r.embedded = false) :
    ((Session.load {} store options entries).1.dts.links.filter (·.document == l.document)).length <
      (((Session.load {} store options entries).1.load store again more).1.dts.links.filter
        (·.document == l.document)).length := by
  obtain ⟨hresult', hdts'⟩ := load_eq (Session.load {} store options entries).1 store again more
  rw [links_eq_flatMap_taken hok] at hl
  obtain ⟨t, ht, hlt⟩ := List.mem_flatMap.1 hl
  obtain ⟨hdocument, hextends, -⟩ := taken_of_load hok ht
  rw [Taking.document_of_mem_links hlt] at hr ⊢
  rw [hdts']
  refine length_filter_links_lt (hresult'.symm.trans hok') hdocument hextends (List.ne_nil_of_mem hlt) ?_
  refine (exists_mem_taken_iff hr).2 ⟨hlinkbases, (isSome_tree?_iff hdocument _).2 fun h => ?_⟩
  exact Bool.false_ne_true (hembedded.symm.trans h.1)

end

/-- What a load on top of another one adds. Every link stands for an element of a linkbase. No element contributes
two links exactly if the second load takes no linkbases, or each link of the first stands in a schema that the
second does not include into a taxonomy of its own. -/
theorem nodup_origins_iff {store : Store} {options again : Options} {entries more : List String}
    {receipt receipt' : Receipt} (hok : (Session.load {} store options entries).2.2 = .ok receipt)
    (hok' : ((Session.load {} store options entries).1.load store again more).2.2 = .ok receipt') :
    let s := (Session.load {} store options entries).1
    let start : Discovery := { dts := s.dts, journal := s.journal }
    let origins := (taken store options entries { dts := {}, journal := {} } ++
      taken store again more start).flatMap Taking.origins
    (s.load store again more).1.dts.links = origins.map Prod.snd ∧
    (∀ o ∈ origins, ∃ tree n registry, store.document o.1.1 = .ok tree ∧ (linkNodes tree)[o.1.2]? = some n ∧
      (readLink registry o.1.1 n).value = some o.2) ∧
    ((origins.map Prod.fst).Nodup ↔ (again.linkbases = true → ∀ l ∈ s.dts.links, ∃ r,
      s.dts.firstRecord? l.document = some r ∧ r.embedded = true ∧
        (started store (enterEntries store { discovery := start } more).1).2.embedded.get? l.document = none)) := by
  intro s start origins
  obtain ⟨hresult', hdts'⟩ := load_eq s store again more
  have hload' := hresult'.symm.trans hok'
  have hfirst := links_eq_flatMap_taken hok
  refine ⟨?_, fun o ho => ?_, (nodup_origins_append_iff (nodup_taken ..) (nodup_taken ..) fun t ht u hu => ?_).trans
    ⟨fun h hlinkbases l hl => ?_, fun h t ht hlinks u hu hlocation => ?_⟩⟩
  · rw [hdts', links_load hload', List.map_flatMap, List.flatMap_append]
    simp only [Taking.map_origins]
    exact congrArg (· ++ _) hfirst
  · obtain ⟨t, ht, ho⟩ := List.mem_flatMap.1 ho
    obtain ⟨hlocation, n, hn, hread⟩ := Taking.mem_origins_iff.1 ho
    refine ⟨t.tree, n, t.registry, hlocation ▸ ?_, hn, hlocation ▸ hread⟩
    rcases List.mem_append.1 ht with ht | ht
    · exact (taken_of_load hok ht).1
    · exact document_of_mem_taken (fun _ _ h => by cases h) ht
  · obtain ⟨hdocument, hextends, -⟩ := taken_of_load hok ht
    exact tree_of_mem_taken_again hload' hdocument hextends hu
  · obtain ⟨t, ht, hlt⟩ := List.mem_flatMap.1 (hfirst ▸ hl)
    obtain ⟨hdocument, -, r, hr⟩ := taken_of_load hok ht
    rw [Taking.document_of_mem_links hlt]
    refine ⟨r, hr, ?_⟩
    by_contra hnot
    obtain ⟨u, hu, hlocation⟩ := (exists_mem_taken_iff hr).2 ⟨hlinkbases, (isSome_tree?_iff hdocument _).2 hnot⟩
    exact h t ht (List.ne_nil_of_mem hlt) u hu hlocation
  · obtain ⟨hdocument, -, r, hr⟩ := taken_of_load hok ht
    obtain ⟨hlinkbases, hsome⟩ := (exists_mem_taken_iff hr).1 ⟨u, hu, hlocation⟩
    obtain ⟨l, hl⟩ := List.exists_mem_of_ne_nil _ hlinks
    obtain ⟨r', hr', hembedded⟩ := h hlinkbases l (hfirst ▸ List.mem_flatMap.2 ⟨t, ht, hl⟩)
    rw [Taking.document_of_mem_links hl, hr, Option.some_inj] at hr'
    rw [Taking.document_of_mem_links hl, ← hr'] at hembedded
    exact (isSome_tree?_iff hdocument _).1 hsome hembedded

/-- The linkbase has one link, and contributes a second one to the second load. -/
theorem origins_contested :
    let store := (Shelf.ofTexts Sample.contested).store
    let s := (Session.load {} store {} ["a.xsd"]).1
    let start : Discovery := { dts := s.dts, journal := s.journal }
    (∃ receipt, (Session.load {} store {} ["a.xsd"]).2.2 = .ok receipt) ∧
    (∃ receipt, (s.load store {} ["a.xsd"]).2.2 = .ok receipt) ∧
    ¬ (((taken store {} ["a.xsd"] { dts := {}, journal := {} } ++ taken store {} ["a.xsd"] start).flatMap
      Taking.origins).map Prod.fst).Nodup := by
  dsimp only
  obtain ⟨⟨receipt, hok⟩, hlinks, hrecord⟩ := Sample.load_contested_once
  obtain ⟨receipt', hok'⟩ := exists_load_again hok {}
  refine ⟨⟨receipt, hok⟩, ⟨receipt', hok'⟩, fun hnodup => ?_⟩
  obtain ⟨l, hl, hdocument⟩ := List.mem_map.1 (hlinks ▸ List.mem_singleton.2 rfl)
  obtain ⟨r, hr, hembedded, -⟩ := (nodup_origins_iff hok hok').2.2.1 hnodup rfl l hl
  rw [hdocument] at hr
  rw [hr, Option.map_some, hembedded] at hrecord
  cases hrecord

/-- Two loads can give more links of a document than there are elements in it. -/
theorem not_forall_length_links_le :
    ¬ ∀ (store : Store) (options again : Options) (entries more : List String) (receipt receipt' : Receipt),
      (Session.load {} store options entries).2.2 = .ok receipt →
      ((Session.load {} store options entries).1.load store again more).2.2 = .ok receipt' →
      ∀ location tree, store.document location = .ok tree →
        (((Session.load {} store options entries).1.load store again more).1.dts.links.filter
          (·.document == location)).length ≤ (linkNodes tree).length := by
  intro h
  obtain ⟨⟨receipt, hok⟩, hlinks, hrecord⟩ := Sample.load_contested_once
  obtain ⟨receipt', hok'⟩ := exists_load_again hok {}
  obtain ⟨tree, hdocument, hlength⟩ := Sample.linkNodes_contested
  have hle := h _ {} {} ["a.xsd"] ["a.xsd"] receipt receipt' hok hok' "l.xml" tree hdocument
  obtain ⟨l, hl, hlocation⟩ := List.map_eq_singleton_iff.1 hlinks
  obtain ⟨r, hr, hembedded⟩ := Option.map_eq_some_iff.1 hrecord
  have hmore := length_filter_links_lt_load hok hok' rfl (hl ▸ List.mem_singleton.2 rfl) (hlocation.symm ▸ hr) hembedded
  rw [hlocation] at hmore
  have hone : 1 ≤ (((Session.load {} (Shelf.ofTexts Sample.contested).store {} ["a.xsd"]).1.dts.links.filter
      (·.document == "l.xml")).length) := by
    rw [hl]
    exact List.length_pos_of_mem (List.mem_filter.2 ⟨List.mem_singleton.2 rfl, beq_iff_eq.2 hlocation⟩)
  rw [hlength] at hle
  exact absurd hle (Nat.not_le_of_gt (Nat.lt_of_le_of_lt hone hmore))

end Session

end TaxonomySet
