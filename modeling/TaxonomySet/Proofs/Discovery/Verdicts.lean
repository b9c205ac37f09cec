import TaxonomySet.Proofs.Discovery.Evaluation
import TaxonomySet.Proofs.Discovery.OwnTables
import TaxonomySet.Proofs.Discovery.Takings

namespace TaxonomySet

namespace Discovery

variable {store : Store} {options : Options} {entries : List String} {d : Discovery} {receipt : Receipt}

/-- The linkbases that a load takes. -/
def taken (store : Store) (options : Options) (entries : List String) (d : Discovery) : List Taking :=
  if options.linkbases then
    let s := started store (enterEntries store { discovery := d } entries).1
    takings store options.locators s.1 s.2
  else []

/-- The linkbases that a load takes, those of each round apart. -/
def takenRounds (store : Store) (options : Options) (entries : List String) (d : Discovery) : List (List Taking) :=
  if options.linkbases then
    let s := started store (enterEntries store { discovery := d } entries).1
    takingRounds store options.locators s.1 s.2
  else []

theorem flatten_takenRounds (store : Store) (options : Options) (entries : List String) (d : Discovery) :
    (takenRounds store options entries d).flatten = taken store options entries d := by
  unfold takenRounds taken
  split
  · exact flatten_takingRounds store options.locators _ _
  · rfl

theorem registry_eq_of_mem_takenRounds {ts : List Taking} (hts : ts ∈ takenRounds store options entries d)
    {t u : Taking} (ht : t ∈ ts) (hu : u ∈ ts) : t.registry = u.registry := by
  unfold takenRounds at hts
  split at hts
  · exact registry_eq_of_mem_takingRounds store options.locators hts ht hu
  · cases hts

/-- A load adds the links that are accepted of the linkbases that it takes. -/
theorem links_load (h : (load store options entries d).2 = .ok receipt) :
    (load store options entries d).1.dts.links = d.dts.links ++ (taken store options entries d).flatMap Taking.links := by
  obtain ⟨p, henter, hload⟩ := load_eq_ok h
  obtain ⟨hlinks, -⟩ := links_started henter
  unfold taken
  rw [hload, henter]
  split
  · rw [links_rounds, hlinks]
  · rw [hlinks]
    exact (List.append_nil _).symm

theorem nodup_taken (store : Store) (options : Options) (entries : List String) (d : Discovery) :
    ((taken store options entries d).map (·.location)).Nodup := by
  unfold taken
  split
  · exact (nodup_takings store options.locators _ _).1
  · exact List.nodup_nil

/-- The registry by which a linkbase is read extends the one before the load, and the one after the load extends
it. -/
theorem extends_taken (h : (load store options entries d).2 = .ok receipt) :
    ∀ t ∈ taken store options entries d, t.registry.Extends d.dts.registry ∧
      (load store options entries d).1.dts.registry.Extends t.registry := by
  obtain ⟨p, henter, hload⟩ := load_eq_ok h
  have hstarted : (started store p).2.dts.registry.Extends d.dts.registry :=
    (stable_extends store d.dts.registry).started (fun h _ _ => h) (.refl _) henter
  intro t ht
  unfold taken at ht
  rw [hload]
  rw [henter] at ht
  split at ht
  · obtain ⟨hfirst, hlast⟩ := (extends_takings store options.locators _ _).2 t ht
    exact ⟨hfirst.trans hstarted, by rwa [if_pos ‹_›]⟩
  · cases ht

/-- The linkbases of the last round are read by the registry that there is after the load. -/
theorem registry_of_last_takenRounds (h : (load store options entries d).2 = .ok receipt)
    {before after : List (List Taking)} {last : List Taking}
    (hrounds : takenRounds store options entries d = before ++ last :: after) (hafter : after.flatten = [])
    {t : Taking} (ht : t ∈ last) : t.registry = (load store options entries d).1.dts.registry := by
  obtain ⟨p, henter, hload⟩ := load_eq_ok h
  unfold takenRounds at hrounds
  rw [hload]
  rw [henter] at hrounds
  split at hrounds
  · rw [if_pos ‹_›]
    exact registry_of_last_takingRounds store options.locators hrounds hafter ht
  · exact absurd hrounds.symm (by simp)

theorem document_of_mem_taken (h : Kept store d) {t : Taking} (ht : t ∈ taken store options entries d) :
    store.document t.location = .ok t.tree := by
  unfold taken at ht
  split at ht
  · exact document_of_mem_takings ((stable_kept store).started (fun h _ _ => h) h rfl) ht
  · cases ht

/-- All linkbases that a taxonomy refers to are taken, as far as they can be read. -/
theorem exists_mem_taken {journal : Journal}
    (h : (load store options entries { dts := {}, journal := journal }).2 = .ok receipt)
    (hlinkbases : options.linkbases = true) {l : String}
    (hl : l ∈ (load store options entries { dts := {}, journal := journal }).1.recordLocations) {tree : Markup.Node}
    (hdocument : store.document l = .ok tree) :
    ∃ t ∈ taken store options entries { dts := {}, journal := journal }, t.location = l ∧ t.tree = tree := by
  obtain ⟨p, henter, hload⟩ := load_eq_ok h
  have hgrounded := (stable_grounded store).started (fun h _ _ => h) (grounded_empty store journal) henter
  have hfresh : (started store p).2.loaded.contains l = false := by
    rw [(links_started henter).2]
    rfl
  obtain ⟨i, j, r, hr, rfl⟩ := mem_recordLocations.1 hl
  rw [hload, if_pos hlinkbases] at hr
  have hunloaded : (rounds store options.locators (started store p).1 (started store p).2).2.unloaded = [] :=
    (rounds_induction (P := fun _ _ => True) (fun _ => trivial) trivial).2
  have htaken : (rounds store options.locators (started store p).1 (started store p).2).2.loaded.contains
      r.location = true := by
    by_contra hnot
    have hmem := mem_unloaded_of_record? hr (Bool.not_eq_true _ ▸ hnot)
    rw [hunloaded] at hmem
    cases hmem
  unfold taken
  rw [if_pos hlinkbases, henter]
  exact exists_taking hgrounded hfresh htaken hdocument

/-- The links of a document are those of the linkbase that was taken there. -/
theorem filter_links_of_nodup {ts : List Taking} (hnodup : (ts.map (·.location)).Nodup) {t : Taking} (ht : t ∈ ts) :
    (ts.flatMap Taking.links).filter (·.document == t.location) = t.links := by
  induction ts with
  | nil => cases ht
  | cons u ts ih =>
    rw [List.map_cons, List.nodup_cons] at hnodup
    rw [List.flatMap_cons, List.filter_append]
    rcases List.mem_cons.1 ht with rfl | ht
    · have hrest : (ts.flatMap Taking.links).filter (·.document == t.location) = [] := by
        refine List.filter_eq_nil_iff.2 fun l hl heq => ?_
        obtain ⟨u, hu, hl⟩ := List.mem_flatMap.1 hl
        refine hnodup.1 (List.mem_map.2 ⟨u, hu, ?_⟩)
        rw [← Taking.document_of_mem_links hl, beq_iff_eq.1 heq]
      rw [List.filter_eq_self.2 fun l hl => beq_iff_eq.2 (Taking.document_of_mem_links hl), hrest, List.append_nil]
    · have hfirst : u.links.filter (·.document == t.location) = [] := by
        refine List.filter_eq_nil_iff.2 fun l hl heq => ?_
        refine hnodup.1 (List.mem_map.2 ⟨t, ht, ?_⟩)
        rw [← Taking.document_of_mem_links hl, beq_iff_eq.1 heq]
      rw [hfirst, List.nil_append, ih hnodup.2 ht]

end Discovery

namespace Sample

/-- A linkbase with a link whose role is declared in a schema that is found only after the linkbase has been
read. -/
def premature : List (String × String) := [
  ("a.xsd", annotatedSchema "" (linkbaseRef "l.xml")),
  ("l.xml", roleLinkbase "r" "b.xsd#x"),
  ("b.xsd", annotatedSchema "b" (linkbase "c.xsd#x")),
  ("c.xsd", annotatedSchema "c" (roleType "r" "<usedOn>labelLink</usedOn>"))]

set_option maxRecDepth 100000 in
/-- The role is declared after the load, but the link is not there. -/
theorem load_premature :
    (∃ receipt, (Session.load {} (Shelf.ofTexts premature).store {} ["a.xsd"]).2.2 = .ok receipt) ∧
    let d := (Session.load {} (Shelf.ofTexts premature).store {} ["a.xsd"]).1.dts
    d.links.map (·.document) = ["b.xsd"] ∧ d.registry.allowsRole "r" ⟨Vocabulary.link, "labelLink"⟩ = true ∧
      (d.taxonomies.flatMap (·.linkbases)).map (·.location) = ["l.xml", "b.xsd"] := by
  refine load_ofTexts premature (fun d => d.links.map (·.document) = _ ∧ d.registry.allowsRole "r" _ = true ∧
    (d.taxonomies.flatMap (·.linkbases)).map (·.location) = _) 5 ?_ ?_
  all_goals
    unfold premature annotatedSchema roleType linkbaseRef linkbase roleLinkbase linkbaseOf
    simp only [List.map_cons, List.map_nil]
    repeat rw [String.toList_append]
    repeat rw [String.toList_ofList]
    decide +kernel

set_option maxRecDepth 100000 in
/-- The one link of the linkbase has the role. -/
theorem document_premature : ∃ tree, (Shelf.ofTexts premature).store.document "l.xml" = .ok tree ∧
    (ExtendedLink.linkNodes tree).map (fun n => (n.xlink? "role", n.name)) =
      [(some "r", ⟨Vocabulary.link, "labelLink"⟩)] := by
  refine document_ofTexts premature (fun tree => (ExtendedLink.linkNodes tree).map _ = _) ?_ ?_
  all_goals
    unfold premature annotatedSchema roleType linkbaseRef linkbase roleLinkbase linkbaseOf
    simp only [List.map_cons, List.map_nil]
    repeat rw [String.toList_append]
    repeat rw [String.toList_ofList]
    decide +kernel

/-- The linkbase belongs to a record, and its element has left no link. -/
theorem left_out_premature :
    let d := (Session.load {} (Shelf.ofTexts premature).store {} ["a.xsd"]).1.dts
    ∃ t ∈ d.taxonomies, ∃ r ∈ t.linkbases, ∃ tree, (Shelf.ofTexts premature).store.document r.location = .ok tree ∧
      ∃ n ∈ ExtendedLink.linkNodes tree, n.xlink? "role" = some "r" ∧ n.name = ⟨Vocabulary.link, "labelLink"⟩ ∧
        d.links.filter (·.document == r.location) = [] := by
  dsimp only
  obtain ⟨-, hlinks, -, hrecords⟩ := load_premature
  obtain ⟨tree, hdocument, hnodes⟩ := document_premature
  obtain ⟨r, hr, hlocation⟩ := List.mem_map.1 (hrecords ▸ List.mem_cons_self : "l.xml" ∈ _)
  obtain ⟨t, ht, hr⟩ := List.mem_flatMap.1 hr
  obtain ⟨n, hn, heq⟩ := List.map_eq_singleton_iff.1 hnodes
  obtain ⟨hrole, hname⟩ := Prod.mk.inj heq
  refine ⟨t, ht, r, hr, tree, hlocation ▸ hdocument, n, hn ▸ List.mem_singleton.2 rfl, hrole, hname, ?_⟩
  refine List.filter_eq_nil_iff.2 fun l hl heq => ?_
  have hmem := List.mem_map_of_mem (f := fun l : ExtendedLink => l.document) hl
  rw [hlinks, List.mem_singleton, beq_iff_eq.1 heq, hlocation] at hmem
  exact absurd hmem (by decide)

end Sample

namespace Session

open Discovery ExtendedLink

/-- What is decided about the links and arcs of a load. Every linkbase that a taxonomy refers to is taken once, if
linkbases are wanted and it can be read. Those of one round are read by one registry, and those of the last round in
which any is taken by the registry after the load. The links of a document are those of its elements whose roles the
registry of its round allows; the registry after the load allows these roles as well. The arcs of its links are
allowed by the registry of its round, and by the registry after the load unless their arcroles had no declaration
in that round and were declared later without their elements. -/
theorem links_of_taken {store : Store} {options : Options} {entries : List String} {receipt : Receipt}
    (hok : (Session.load {} store options entries).2.2 = .ok receipt) :
    let d := (Session.load {} store options entries).1.dts
    let rounds := takenRounds store options entries { dts := {}, journal := {} }
    let ts := taken store options entries { dts := {}, journal := {} }
    (ts.map (·.location)).Nodup ∧ rounds.flatten = ts ∧
    (∀ round ∈ rounds, ∀ t ∈ round, ∀ u ∈ round, t.registry = u.registry) ∧
    (∀ before last after, rounds = before ++ last :: after → after.flatten = [] →
      ∀ t ∈ last, t.registry = d.registry) ∧
    (options.linkbases = true → ∀ n ∈ d.taxonomies, ∀ r ∈ n.linkbases, ∀ tree,
      store.document r.location = .ok tree → ∃ t ∈ ts, t.location = r.location ∧ t.tree = tree) ∧
    (∀ t ∈ ts, store.document t.location = .ok t.tree ∧
      d.links.filter (·.document == t.location) =
        (linkNodes t.tree).filterMap (fun n => (readLink t.registry t.location n).value) ∧
      ∀ n ∈ linkNodes t.tree, ∀ role, n.xlink? "role" = some role →
        (readLink t.registry t.location n).value.isSome = t.registry.allowsRole role n.name ∧
        (t.registry.allowsRole role n.name = true → d.registry.allowsRole role n.name = true)) ∧
    ∀ l ∈ d.links, ∃ t ∈ ts, t.location = l.document ∧ ∀ a ∈ l.arcList,
      t.registry.allowsArcrole a.arcrole a.element = true ∧
      (d.registry.allowsArcrole a.arcrole a.element = true ∨ t.registry.arcroles.get? a.arcrole = none ∧
        ∃ declared, d.registry.arcroles.get? a.arcrole = some declared ∧ declared.usedOn.contains a.element = false) := by
  intro d rounds ts
  obtain ⟨hresult, hdts⟩ := load_eq {} store options entries
  have hload : (Discovery.load store options entries { dts := {}, journal := {} }).2 = .ok receipt :=
    hresult.symm.trans hok
  have hd : d = (Discovery.load store options entries { dts := {}, journal := {} }).1.dts := hdts
  have hlinks : d.links = ts.flatMap Taking.links := by
    rw [hd]
    exact (links_load hload).trans (List.nil_append _)
  have hextends {t : Taking} (ht : t ∈ ts) : d.registry.Extends t.registry := by
    rw [hd]
    exact (extends_taken hload t ht).2
  refine ⟨nodup_taken store options entries _, flatten_takenRounds store options entries _,
    fun round hround t ht u hu => registry_eq_of_mem_takenRounds hround ht hu,
    fun before last after hrounds hafter t ht => ?_, fun hlinkbases n hn r hr tree hdocument => ?_,
    fun t ht => ⟨?_, ?_, ?_⟩, fun l hl => ?_⟩
  · rw [hd]
    exact registry_of_last_takenRounds hload hrounds hafter ht
  · rw [hd] at hn
    refine exists_mem_taken hload hlinkbases ?_ hdocument
    exact List.mem_flatMap.2 ⟨n, hn, List.mem_map.2 ⟨r, hr, rfl⟩⟩
  · exact document_of_mem_taken (fun _ _ h => by cases h) ht
  · rw [hlinks, filter_links_of_nodup (nodup_taken store options entries _) ht, Taking.links_eq]
  · exact fun n _ role hrole => ⟨isSome_readLink hrole, fun hallows => (hextends ht).allowsRole hallows⟩
  · rw [hlinks] at hl
    obtain ⟨t, ht, hl⟩ := List.mem_flatMap.1 hl
    refine ⟨t, ht, (Taking.document_of_mem_links hl).symm, fun a ha => ?_⟩
    obtain ⟨n, -, role, rfl⟩ := exists_of_mem_readAll hl
    have hallows := allowsArcrole_of_mem_readContent rfl ha
    exact ⟨hallows, (hextends ht).allowsArcrole hallows⟩

/-- The linkbase is read by a registry that does not declare the role of its link yet. -/
theorem links_of_taken_premature :
    (∃ receipt, (Session.load {} (Shelf.ofTexts Sample.premature).store {} ["a.xsd"]).2.2 = .ok receipt) ∧
      (∃ t ∈ taken (Shelf.ofTexts Sample.premature).store {} ["a.xsd"] { dts := {}, journal := {} },
        ∃ n ∈ linkNodes t.tree, n.xlink? "role" = some "r" ∧ t.registry.allowsRole "r" n.name = false) ∧
      (Session.load {} (Shelf.ofTexts Sample.premature).store {} ["a.xsd"]).1.dts.registry.allowsRole "r"
        ⟨Vocabulary.link, "labelLink"⟩ = true := by
  obtain ⟨⟨receipt, hok⟩, -, hallows, -⟩ := Sample.load_premature
  obtain ⟨t, ht, r, hr, tree, hdocument, n, hn, hrole, -, hnone⟩ := Sample.left_out_premature
  obtain ⟨-, -, -, -, hcovers, hread, -⟩ := links_of_taken hok
  obtain ⟨taking, htaking, hlocation, rfl⟩ := hcovers rfl t ht r hr tree hdocument
  obtain ⟨-, hlinks, haccepts⟩ := hread taking htaking
  rw [hlocation, hnone] at hlinks
  have hrejected := List.filterMap_eq_nil_iff.1 hlinks.symm n hn
  obtain ⟨hverdict, -⟩ := haccepts n hn "r" hrole
  rw [hlocation, hrejected] at hverdict
  exact ⟨⟨receipt, hok⟩, ⟨taking, htaking, n, hn, hrole, hverdict.symm⟩, hallows⟩

/-- Links may be left out although the registry after the load allows their roles. -/
theorem not_forall_accepted_iff :
    ¬ ∀ (store : Store) (options : Options) (entries : List String) (receipt : Receipt),
      (Session.load {} store options entries).2.2 = .ok receipt →
      let d := (Session.load {} store options entries).1.dts
      (options.linkbases = true → ∀ t ∈ d.taxonomies, ∀ r ∈ t.linkbases, ∀ tree,
        store.document r.location = .ok tree → ∀ n ∈ linkNodes tree, ∀ role, n.xlink? "role" = some role →
        ((∃ l ∈ d.links, l.document = r.location ∧ l.element = n.name ∧ l.role = role) ↔
          d.registry.allowsRole role n.name = true)) ∧
      ∀ l ∈ d.links, ∀ a ∈ l.arcList, d.registry.allowsArcrole a.arcrole a.element = true := by
  intro h
  obtain ⟨⟨receipt, hok⟩, -, hallows, -⟩ := Sample.load_premature
  obtain ⟨t, ht, r, hr, tree, hdocument, n, hn, hrole, hname, hnone⟩ := Sample.left_out_premature
  have haccepted := (h _ _ _ receipt hok).1 rfl t ht r hr tree hdocument n hn "r" hrole
  obtain ⟨l, hl, hdocument, -⟩ := haccepted.2 (hname ▸ hallows)
  exact absurd (beq_iff_eq.2 hdocument) (List.filter_eq_nil_iff.1 hnone l hl)

end Session

end TaxonomySet
