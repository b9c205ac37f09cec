import TaxonomySet.Proofs.Discovery.Evaluation
import TaxonomySet.Proofs.Discovery.Exploration
import TaxonomySet.Proofs.Dts.Lookup
import TaxonomySet.Proofs.Relationship.Network

namespace TaxonomySet

namespace Discovery

/-- What a discovery in an orderly store has come to between two rounds. -/
structure Charted (store : Store) (seen : SortedSet String) (d : Discovery) : Prop where
  explored : Explored store seen [] d
  grounded : Grounded store seen d

/-- Discoveries that have taken the same linkbases and have the same links of each document. They agree in all but
numbers. -/
structure Akin (d e : Discovery) : Prop where
  loaded : d.loaded = e.loaded
  links : Alike (·.document) d.dts.links e.dts.links

namespace Charted

variable {store : Store} {seen : SortedSet String} {d e : Discovery}

/-- The schemas that the linkbases of a round refer to are pending before it. -/
theorem explored_take (h : Charted store seen d) : Explored store seen
    ((d.takeLinkbases store).1.targets seen (d.takeLinkbases store).2) (d.takeLinkbases store).1 :=
  h.explored.locate (takeLinkbases_fst store d).1 fun _ hp => origin_of_mem_targets hp

theorem round (h : Charted store seen d) (horderly : store.Orderly) :
    Charted store (round store true seen d).1 (round store true seen d).2 :=
  ⟨((stable_explored horderly).drain _ h.explored_take).addLinkbases _, h.grounded.round true⟩

variable (hd : Charted store seen d) (he : Charted store seen e) (hloaded : d.loaded = e.loaded)
include hd he hloaded

theorem unloaded_iff (l : String) : l ∈ d.unloaded.map (·.1) ↔ l ∈ e.unloaded.map (·.1) := by
  rw [hd.explored.mem_unloaded_iff, he.explored.mem_unloaded_iff, hloaded]

theorem unloaded_eq_nil_iff : d.unloaded = [] ↔ e.unloaded = [] := by
  rw [← List.map_eq_nil_iff (f := Prod.fst), List.eq_nil_iff_forall_not_mem,
    ← List.map_eq_nil_iff (f := Prod.fst) (l := e.unloaded), List.eq_nil_iff_forall_not_mem]
  exact forall_congr' fun l => not_congr (hd.unloaded_iff he hloaded l)

/-- The same linkbases are taken, though not in the same order. -/
theorem alike_takeLinkbases :
    (∀ linkbase, linkbase ∈ (d.takeLinkbases store).2 ↔ linkbase ∈ (e.takeLinkbases store).2) ∧
      Alike Prod.fst (d.takeLinkbases store).2 (e.takeLinkbases store).2 := by
  have hmem (linkbase : String × Markup.Node) :
      linkbase ∈ (d.takeLinkbases store).2 ↔ linkbase ∈ (e.takeLinkbases store).2 := by
    rw [hd.grounded.mem_takeLinkbases_iff, he.grounded.mem_takeLinkbases_iff, hd.unloaded_iff he hloaded]
  have hperm := (List.perm_ext_iff_of_nodup (nodup_takeLinkbases store d).of_map
    (nodup_takeLinkbases store e).of_map).2 hmem
  exact ⟨hmem, .of_perm hperm (nodup_takeLinkbases store e)⟩

theorem loaded_takeLinkbases : (d.takeLinkbases store).1.loaded = (e.takeLinkbases store).1.loaded := by
  rw [(takeLinkbases_fst store d).2.2, (takeLinkbases_fst store e).2.2]
  refine SortedSet.ext_mem fun l => ?_
  rw [SortedSet.mem_insertAll, SortedSet.mem_insertAll, hd.unloaded_iff he hloaded, hloaded]

/-- The same schemas have been seen after a round. -/
theorem seen_round (horderly : store.Orderly) :
    (Discovery.round store true seen d).1 = (Discovery.round store true seen e).1 := by
  refine SortedSet.ext_mem fun l => ?_
  change (drain store seen (d.takeLinkbases store).1 _).1.contains l = true ↔
    (drain store seen (e.takeLinkbases store).1 _).1.contains l = true
  rw [if_pos rfl, if_pos rfl, contains_drain_iff horderly hd.explored_take,
    contains_drain_iff horderly he.explored_take]
  simp only [exists_mem_targets_iff, (hd.alike_takeLinkbases he hloaded).1, hd.loaded_takeLinkbases he hloaded]

end Charted

/-- A round leads akin discoveries to akin ones. -/
theorem Akin.round {store : Store} {seen : SortedSet String} {d e : Discovery} (h : Akin d e)
    (horderly : store.Orderly) (hd : Charted store seen d) (he : Charted store seen e) :
    Akin (round store true seen d).2 (round store true seen e).2 := by
  obtain ⟨hloaded, hlinks⟩ := links_round store true seen d
  obtain ⟨hloaded', hlinks'⟩ := links_round store true seen e
  have hregistry := (hd.round horderly).explored.registry
  have hregistry' := (he.round horderly).explored.registry
  rw [← hd.seen_round he h.loaded horderly] at hregistry'
  have hread (l : String × Markup.Node) := ExtendedLink.readAll_congr (hregistry'.allowsRole_eq hregistry)
    (hregistry'.allowsArcrole_eq hregistry) l.1 l.2
  constructor
  · rw [hloaded, hloaded', hd.loaded_takeLinkbases he h.loaded]
  · rw [hlinks, hlinks']
    simp only [hread]
    exact h.links.append ((hd.alike_takeLinkbases he h.loaded).2.flatMap fun l _ hl =>
      ExtendedLink.document_of_mem_readAll hl)

/-- Rounds lead akin discoveries to akin ones, and they see the same schemas. -/
theorem rounds_akin {store : Store} (horderly : store.Orderly) {seen : SortedSet String} {d e : Discovery}
    (h : Akin d e) (hd : Charted store seen d) (he : Charted store seen e) :
    ∃ seen', Charted store seen' (rounds store true seen d).2 ∧ Charted store seen' (rounds store true seen e).2 ∧
      Akin (rounds store true seen d).2 (rounds store true seen e).2 := by
  fun_induction rounds store true seen d generalizing e with
  | case1 seen d hpending =>
    rw [rounds, dif_pos ((hd.unloaded_eq_nil_iff he h.loaded).1 hpending)]
    exact ⟨seen, hd, he, h⟩
  | case2 seen d hpending next =>
    rename_i ih
    rw [rounds.eq_def store true seen e, dif_neg (mt (hd.unloaded_eq_nil_iff he h.loaded).2 hpending)]
    have hseen : next.1 = (round store true seen e).1 := hd.seen_round he h.loaded horderly
    have hnext : Charted store next.1 (round store true seen e).2 := hseen ▸ he.round horderly
    dsimp only
    rw [← hseen]
    exact ih (h.round horderly hd he) (hd.round horderly) hnext

namespace Explored

variable {store : Store} {seen : SortedSet String} {d e : Discovery} (hd : Explored store seen [] d)
  (he : Explored store seen [] e)
include hd he

theorem exists_unlinked_eq {t : Taxonomy} (ht : t ∈ d.dts.taxonomies) :
    ∃ u ∈ e.dts.taxonomies, u.unlinked = t.unlinked :=
  List.mem_map.1 (he.taxonomies.2 (hd.taxonomies.1 (List.mem_map_of_mem ht)))

theorem map_taxonomyOf?_eq (ns : String) :
    (d.dts.taxonomyOf? ns).map Taxonomy.unlinked = (e.dts.taxonomyOf? ns).map Taxonomy.unlinked := by
  have hiff {d : Discovery} (h : Explored store seen [] d) (u : Taxonomy) :
      (d.dts.taxonomyOf? ns).map Taxonomy.unlinked = some u ↔
        (∃ s, Found store seen s ∧ .ofSchema s = u) ∧ u.ns = ns := by
    rw [← h.taxonomies, List.mem_map, Option.map_eq_some_iff]
    simp only [h.consistent.taxonomyOf?_eq_some_iff]
    constructor
    · rintro ⟨t, ⟨ht, hns⟩, rfl⟩
      exact ⟨⟨t, ht, rfl⟩, hns⟩
    · rintro ⟨⟨t, ht, rfl⟩, hns⟩
      exact ⟨t, ⟨ht, hns⟩, rfl⟩
  exact Option.ext fun u => (hiff hd u).trans (hiff he u).symm

theorem resolve_eq (hlinks : Alike (·.document) d.dts.links e.dts.links) : d.dts.resolve = e.dts.resolve := by
  refine Dts.resolve_congr hd.consistent.toIndexed hd.consistent.resources_eq he.consistent hlinks (fun t ht => ?_)
    fun u hu => ?_
  · obtain ⟨u, hu, heq⟩ := hd.exists_unlinked_eq he ht
    exact ⟨u, hu, (congrArg Taxonomy.elements heq).symm, (congrArg Taxonomy.ids heq).symm,
      (congrArg Taxonomy.documents heq).symm⟩
  · obtain ⟨t, ht, heq⟩ := he.exists_unlinked_eq hd hu
    have hdocuments : t.unlinked.documents = u.unlinked.documents := congrArg Taxonomy.documents heq
    exact ⟨t, ht, hdocuments⟩

end Explored

theorem charted_started {store : Store} (horderly : store.Orderly) {entries : List String} {journal : Journal}
    {p : Progress} {f : Option Fault}
    (henter : enterEntries store { discovery := { dts := {}, journal := journal } } entries = (p, f)) :
    Charted store (started store p).1 (started store p).2 :=
  ⟨explored_started horderly henter,
    (stable_grounded store).started (fun h _ _ => h) (grounded_empty store journal) henter⟩

/-- Two loads of the same entries see the same schemas and lead to akin discoveries. -/
theorem load_akin {store : Store} (horderly : store.Orderly) {entries others : List String}
    (hperm : entries.Perm others) {journal journal' : Journal} {receipt receipt' : Receipt}
    (h : (load store {} entries { dts := {}, journal := journal }).2 = .ok receipt)
    (h' : (load store {} others { dts := {}, journal := journal' }).2 = .ok receipt') :
    let d := (load store {} entries { dts := {}, journal := journal }).1
    let e := (load store {} others { dts := {}, journal := journal' }).1
    ∃ seen, Charted store seen d ∧ Charted store seen e ∧ Akin d e := by
  intro d e
  obtain ⟨p, henter, hload⟩ := load_eq_ok h
  obtain ⟨q, henter', hload'⟩ := load_eq_ok h'
  have hp : Charted store (started store p).1 (started store p).2 := charted_started horderly henter
  have hq : Charted store (started store q).1 (started store q).2 := charted_started horderly henter'
  have hseen : (started store p).1 = (started store q).1 := by
    refine SortedSet.ext_mem fun l => ?_
    change (started store p).1.contains l = true ↔ (started store q).1.contains l = true
    rw [contains_started_iff horderly henter, contains_started_iff horderly henter']
    simp only [hperm.mem_iff]
  have hakin : Akin (started store p).2 (started store q).2 := by
    obtain ⟨hlinks, hloaded⟩ := links_started henter
    obtain ⟨hlinks', hloaded'⟩ := links_started henter'
    exact ⟨hloaded.trans hloaded'.symm, by rw [hlinks, hlinks']; exact fun _ => rfl⟩
  have hd : d = (rounds store true (started store p).1 (started store p).2).2 := hload
  have he : e = (rounds store true (started store p).1 (started store q).2).2 := hload'.trans (by rw [hseen]; rfl)
  rw [hd, he]
  exact rounds_akin horderly hakin hp (hseen ▸ hq)

end Discovery

namespace Sample

/-- Two schemas that declare a role, the second for label links. The second also refers to a linkbase, which
leads to the first. -/
def agreeing : List (String × String) := [
  ("plain.xsd", annotatedSchema "" (roleType "r" "")),
  ("b.xsd", annotatedSchema "b" (roleType "r" "<usedOn>labelLink</usedOn>" ++ linkbaseRef "l.xml")),
  ("l.xml", linkbase "plain.xsd#x")]

set_option maxRecDepth 100000 in
theorem orderly_agreeing : (Shelf.ofTexts agreeing).store.Orderly := by
  refine Shelf.orderly_ofTexts agreeing ?_ ?_
  all_goals
    unfold agreeing annotatedSchema roleType linkbaseRef linkbase roleLinkbase linkbaseOf
    simp only [List.map_cons, List.map_nil]
    repeat rw [String.toList_append]
    repeat rw [String.toList_ofList]
    decide +kernel

set_option maxRecDepth 100000 in
theorem load_agreeing (entries : List String)
    (h : entries = ["plain.xsd", "b.xsd"] ∨ entries = ["b.xsd", "plain.xsd"]) :
    (∃ receipt, (Session.load {} (Shelf.ofTexts agreeing).store {} entries).2.2 = .ok receipt) ∧
    let d := (Session.load {} (Shelf.ofTexts agreeing).store {} entries).1.dts
    d.links.map (·.document) = ["l.xml"] ∧
      d.registry.allowsRole "r" ⟨Vocabulary.link, "labelLink"⟩ = true := by
  rcases h with rfl | rfl
  all_goals
    refine load_ofTexts agreeing (fun d => d.links.map (·.document) = ["l.xml"] ∧
      d.registry.allowsRole "r" ⟨Vocabulary.link, "labelLink"⟩ = true) 5 ?_ ?_
  all_goals
    unfold agreeing annotatedSchema roleType linkbaseRef linkbase roleLinkbase linkbaseOf
    simp only [List.map_cons, List.map_nil]
    repeat rw [String.toList_append]
    repeat rw [String.toList_ofList]
    decide +kernel

end Sample

namespace Session

/-- Sessions with the same taxonomies but for the numbers of links, the same answers about roles and arcroles,
the same links of each document and the same relationships but for the numbers of links. -/
structure Corresponds (s t : Session) : Prop where
  taxonomy : ∀ ns, (s.dts.taxonomyOf? ns).map Taxonomy.unlinked = (t.dts.taxonomyOf? ns).map Taxonomy.unlinked
  role : ∀ uri, (s.dts.registry.roles.get? uri).map (·.usedOn) = (t.dts.registry.roles.get? uri).map (·.usedOn)
  arcrole : ∀ uri, (s.dts.registry.arcroles.get? uri).map (fun a => (a.usedOn, a.cycles)) =
    (t.dts.registry.arcroles.get? uri).map fun a => (a.usedOn, a.cycles)
  allowsRole : ∀ uri element, s.dts.registry.allowsRole uri element = t.dts.registry.allowsRole uri element
  allowsArcrole : ∀ uri element, s.dts.registry.allowsArcrole uri element = t.dts.registry.allowsArcrole uri element
  cycles : ∀ uri, s.dts.registry.cyclesOf uri = t.dts.registry.cyclesOf uri
  links : ∀ document, (s.dts.links.filter fun l => l.document == document) =
    t.dts.links.filter fun l => l.document == document
  relationships : ∀ key, (s.index.network.relationships key).map Relationship.unlinked =
    (t.index.network.relationships key).map Relationship.unlinked

/-- Loads of the same entries from an orderly store lead to sessions that correspond, whatever the order of the
entries. -/
theorem load_perm {store : Store} (horderly : store.Orderly) {entries others : List String}
    (hperm : entries.Perm others) {journal journal' : Journal} {receipt receipt' : Discovery.Receipt}
    (hload : (load { journal := journal } store {} entries).2.2 = .ok receipt)
    (hload' : (load { journal := journal' } store {} others).2.2 = .ok receipt') :
    Corresponds (load { journal := journal } store {} entries).1
      (load { journal := journal' } store {} others).1 := by
  obtain ⟨hresult, hdts⟩ := load_eq { journal := journal } store {} entries
  obtain ⟨hresult', hdts'⟩ := load_eq { journal := journal' } store {} others
  obtain ⟨seen, hs, ht, hakin⟩ :=
    Discovery.load_akin horderly hperm (hresult.symm.trans hload) (hresult'.symm.trans hload')
  have hindex := index_load hload
  have hindex' := index_load hload'
  generalize (load { journal := journal } store {} entries).1 = s at hdts hindex ⊢
  generalize (load { journal := journal' } store {} others).1 = t at hdts' hindex' ⊢
  have hregistry := hs.explored.registry
  have hregistry' := ht.explored.registry
  have hlinks := hakin.links
  have hresolve := hs.explored.resolve_eq ht.explored hlinks
  have htaxonomies := hs.explored.map_taxonomyOf?_eq ht.explored
  rw [← hdts] at hregistry hlinks hresolve htaxonomies
  rw [← hdts'] at hregistry' hlinks hresolve htaxonomies
  refine ⟨htaxonomies, hregistry.usedOn_eq hregistry', hregistry.arcroles_eq hregistry',
    hregistry.allowsRole_eq hregistry', hregistry.allowsArcrole_eq hregistry', hregistry.cyclesOf_eq hregistry',
    hlinks, fun key => ?_⟩
  rw [hindex, hindex']
  change ((Network.ofLinks s.dts.resolve s.dts.links).value.relationships key).map _ =
    ((Network.ofLinks t.dts.resolve t.dts.links).value.relationships key).map _
  rw [hresolve]
  exact Network.relationships_congr t.dts.resolve hlinks key

/-- Two schemas that declare the same role and a linkbase may be loaded in either order. -/
theorem load_perm_agreeing :
    let store := (Shelf.ofTexts Sample.agreeing).store
    let s := (load {} store {} ["plain.xsd", "b.xsd"]).1
    let t := (load {} store {} ["b.xsd", "plain.xsd"]).1
    store.Orderly ∧ (∃ receipt, (load {} store {} ["plain.xsd", "b.xsd"]).2.2 = .ok receipt) ∧
      (∃ receipt, (load {} store {} ["b.xsd", "plain.xsd"]).2.2 = .ok receipt) ∧ s.Corresponds t ∧
      s.dts.links.map (·.document) = ["l.xml"] ∧
      s.dts.registry.allowsRole "r" ⟨Vocabulary.link, "labelLink"⟩ = true := by
  intro store s t
  obtain ⟨⟨receipt, hload⟩, hlinks, hrole⟩ := Sample.load_agreeing _ (.inl rfl)
  obtain ⟨⟨receipt', hload'⟩, -⟩ := Sample.load_agreeing _ (.inr rfl)
  exact ⟨Sample.orderly_agreeing, ⟨receipt, hload⟩, ⟨receipt', hload'⟩,
    load_perm Sample.orderly_agreeing (List.Perm.swap _ _ _) hload hload', hlinks, hrole⟩

end Session

end TaxonomySet
