import TaxonomySet.Proofs.Discovery.Consistency
import TaxonomySet.Proofs.Discovery.Evaluation
import TaxonomySet.Proofs.Discovery.Naming
import TaxonomySet.Proofs.Dts.Lookup

namespace TaxonomySet

namespace Schema

theorem ns_of_read {location : String} {adopted : Option String} {root : Markup.Node} {s : Schema}
    {ds : List Diagnostic} (h : read location adopted root = .ok ⟨s, ds⟩) :
    s.ns = ((root.attr? "targetNamespace").or adopted).getD "" := by
  unfold read at h
  split at h
  · cases h
    rfl
  · cases h

/-- The elements of a schema belong to its namespace and to its document. -/
theorem element_of_read {location : String} {adopted : Option String} {root : Markup.Node} {s : Schema}
    {ds : List Diagnostic} (h : read location adopted root = .ok ⟨s, ds⟩) {e : Element} (he : e ∈ s.elements) :
    e.name.ns = s.ns ∧ e.document = location := by
  obtain ⟨items, hs, hstems⟩ := exists_stems_of_read h
  rw [hs] at he
  obtain ⟨item, hitem, hvalue⟩ := List.mem_filterMap.1 he
  cases item <;> cases hvalue
  obtain ⟨n, -, hstem⟩ := hstems _ hitem
  cases hstem with
  | element hread =>
    unfold readElement at hread
    split at hread <;> cases hread
    exact ⟨rfl, rfl⟩
  | noting hinforms => cases hinforms

end Schema

namespace Taxonomy

/-- What it says about an element that a taxonomy stores it under a local name. It is declared in the first document
of the taxonomy or in one that this includes, under the target namespace of that document, if there is one, and else
under that of the taxonomy. -/
structure Stores (store : Store) (t : Taxonomy) (x : String) (e : Element) : Prop where
  localName : e.name.localName = x
  document : e.document ∈ t.documents
  included : e.document = t.location ∨ e.document ∈ t.includes
  ns : ∃ root, store.document e.document = .ok root ∧ e.name.ns = (root.attr? "targetNamespace").getD t.ns

/-- Whether a taxonomy has the target namespace of its first document, and all its elements from documents that
belong to it. -/
structure Faithful (store : Store) (t : Taxonomy) : Prop where
  first : ∃ root, store.document t.location = .ok root ∧ t.ns = (root.attr? "targetNamespace").getD ""
  stores : ∀ {x e}, t.elements.get? x = some e → t.Stores store x e

variable {store : Store} {t : Taxonomy}

/-- In the first document and under the namespace of the taxonomy come to the same. -/
theorem Faithful.ns_of_first (h : t.Faithful store) {x : String} {e : Element} (he : t.elements.get? x = some e)
    (hfirst : e.document = t.location) : e.name.ns = t.ns := by
  obtain ⟨root, hroot, hns⟩ := h.first
  obtain ⟨root', hroot', hname⟩ := (h.stores he).ns
  rw [hfirst, hroot, Except.ok.injEq] at hroot'
  subst hroot'
  rw [hname, hns]
  cases root.attr? "targetNamespace" <;> rfl

/-- More documents may belong to a taxonomy, and its schemas may include more. -/
theorem Stores.mono {u : Taxonomy} {x : String} {e : Element} (h : t.Stores store x e) (hns : u.ns = t.ns)
    (hlocation : u.location = t.location) (hdocuments : ∀ l ∈ t.documents, l ∈ u.documents)
    (hincludes : ∀ l ∈ t.includes, l ∈ u.includes) : u.Stores store x e where
  localName := h.localName
  document := hdocuments _ h.document
  included := h.included.imp (fun h => h.trans hlocation.symm) (hincludes _)
  ns := hns ▸ h.ns

/-- Of elements of one local name the first stays. -/
theorem elements_foldl_declare (document : String) (es : List Element) (acc : Reported Taxonomy) (x : String) :
    (es.foldl (declare document) acc).value.elements.get? x =
      (acc.value.elements.get? x).or (es.find? (·.name.localName == x)) := by
  induction es generalizing acc with
  | nil => exact (Option.or_none).symm
  | cons e es ih =>
    rw [List.foldl_cons, ih]
    unfold declare
    split
    · rename_i hcontains
      by_cases hx : e.name.localName = x
      · subst hx
        obtain ⟨k, hk⟩ := Option.isSome_iff_exists.1 hcontains
        rw [hk, Option.some_or, Option.some_or]
      · rw [List.find?_cons_of_neg (by simpa using hx)]
    · rename_i hcontains
      change ((acc.value.elements.insert e.name.localName e).get? x).or _ = _
      by_cases hx : e.name.localName = x
      · subst hx
        have hnone : acc.value.elements.get? e.name.localName = none := Option.not_isSome_iff_eq_none.1 hcontains
        rw [SortedMap.get?_insert_self, hnone, Option.none_or, List.find?_cons_of_pos (by simp), Option.some_or]
      · rw [SortedMap.get?_insert_of_ne _ _ (Ne.symm hx), List.find?_cons_of_neg (by simpa using hx)]

theorem get?_elements_addSchema (t : Taxonomy) (s : Schema) (x : String) :
    (t.addSchema s).value.elements.get? x = (t.elements.get? x).or (s.elements.find? (·.name.localName == x)) :=
  elements_foldl_declare s.location s.elements ⟨t, []⟩ x

/-- A schema adds its elements, if its document belongs to the taxonomy. -/
theorem Faithful.addSchema (h : t.Faithful store) {location : String} {adopted : Option String}
    {root : Markup.Node} {s : Schema} {ds : List Diagnostic} (hdocument : store.document location = .ok root)
    (hread : Schema.read location adopted root = .ok ⟨s, ds⟩) (hns : s.ns = (root.attr? "targetNamespace").getD t.ns)
    (hmem : location ∈ t.documents) (hincluded : location = t.location ∨ location ∈ t.includes) :
    (t.addSchema s).value.Faithful store := by
  have hmono {x : String} {e : Element} (hstores : t.Stores store x e) : (t.addSchema s).value.Stores store x e := by
    refine hstores.mono (ns_addSchema t s) (location_addSchema t s) (fun l hl => ?_) fun l hl => ?_
    · rwa [documents_addSchema]
    · rw [includes_addSchema]
      exact SortedSet.mem_insertAll.2 (.inr hl)
  refine ⟨?_, fun {x e} he => hmono ?_⟩
  · rw [ns_addSchema, location_addSchema]
    exact h.first
  · rw [get?_elements_addSchema] at he
    rcases Option.or_eq_some_iff.1 he with he | ⟨-, hfind⟩
    · exact h.stores he
    · have hx := List.find?_some (p := fun k : Element => k.name.localName == x) hfind
      obtain ⟨hname, rfl⟩ := Schema.element_of_read hread (List.mem_of_find?_eq_some hfind)
      exact ⟨beq_iff_eq.1 hx, hmem, hincluded, root, hdocument, hname.trans hns⟩

theorem Faithful.insertDocument (h : t.Faithful store) (l : String) :
    Faithful store { t with documents := t.documents.insert l } where
  first := h.first
  stores he := (h.stores he).mono rfl rfl (fun _ hl => SortedSet.mem_insert.2 (.inr hl)) fun _ hl => hl

theorem faithful_start {location : String} {root : Markup.Node} (hdocument : store.document location = .ok root)
    {ns : String} (hns : ns = (root.attr? "targetNamespace").getD "") (nsPrefix : Option String) :
    (start ns location nsPrefix).Faithful store where
  first := ⟨root, hdocument, hns⟩
  stores he := by cases he

theorem Faithful.attach (h : t.Faithful store) (location : String) (links : List Nat) :
    (t.attach location links).Faithful store where
  first := h.first
  stores he := (h.stores he).mono rfl rfl (fun _ hl => hl) fun _ hl => hl

end Taxonomy

namespace Discovery

/-- Whether a taxonomy with a number is there and includes a location. -/
def Includes (ts : List Taxonomy) (i : Nat) (l : String) : Prop := ∃ t, ts[i]? = some t ∧ l ∈ t.includes

theorem Includes.modify {ts : List Taxonomy} {i : Nat} {l : String} (h : Includes ts i l) {j : Nat}
    {f : Taxonomy → Taxonomy} (hf : ∀ t, l ∈ t.includes → l ∈ (f t).includes) : Includes (ts.modify j f) i l := by
  obtain ⟨t, ht, hl⟩ := h
  unfold Includes
  by_cases hij : j = i
  · subst hij
    rw [List.getElem?_modify_eq, ht]
    exact ⟨f t, rfl, hf t hl⟩
  · rw [List.getElem?_modify_ne f ts hij]
    exact ⟨t, ht, hl⟩

theorem Includes.append {ts : List Taxonomy} {i : Nat} {l : String} (h : Includes ts i l) (us : List Taxonomy) :
    Includes (ts ++ us) i l := by
  obtain ⟨t, ht, hl⟩ := h
  exact ⟨t, by rw [List.getElem?_append_left (List.getElem?_eq_some_iff.1 ht).1, ht], hl⟩

/-- What each step of a discovery keeps of the elements. The schemas that are pending on behalf of a taxonomy are
included by it. -/
structure Stocked (store : Store) (queue : List Pending) (d : Discovery) : Prop where
  faithful : ∀ t ∈ d.dts.taxonomies, t.Faithful store
  including : ∀ p ∈ queue, ∀ i, p.origin = .including i → Includes d.dts.taxonomies i p.location

theorem forall_mem_modify {ts : List Taxonomy} {P : Taxonomy → Prop} (h : ∀ t ∈ ts, P t) {i : Nat}
    {f : Taxonomy → Taxonomy} (hf : ∀ t, ts[i]? = some t → P (f t)) : ∀ t ∈ ts.modify i f, P t := by
  intro t ht
  obtain ⟨j, hj⟩ := List.mem_iff_getElem?.1 ht
  rw [List.getElem?_modify] at hj
  obtain ⟨u, hu, rfl⟩ := Option.map_eq_some_iff.1 hj
  split
  · rename_i hij
    exact hf u (hij ▸ hu)
  · exact h u (List.mem_of_getElem? hu)

theorem includes_of_mem_pendingOf {location : String} {adopted : Option String} {root : Markup.Node} {s : Schema}
    {ds : List Diagnostic} (hread : Schema.read location adopted root = .ok ⟨s, ds⟩) {i : Nat} {p : Pending}
    (hp : p ∈ pendingOf s i) {j : Nat} (hj : p.origin = .including j) : j = i ∧ p.location ∈ s.includes := by
  refine ⟨mem_pendingOf hp hj, ?_⟩
  unfold pendingOf at hp
  rcases List.mem_append.1 hp with hp | hp
  · obtain ⟨_, -, rfl⟩ := List.mem_map.1 hp
    cases hj
  · obtain ⟨l, hl, rfl⟩ := List.mem_map.1 hp
    have hnormal : Location.normalize l = l := Schema.normalize_named hread (.inr hl)
    change Location.normalize l ∈ s.includes
    rwa [hnormal]

variable {store : Store}

/-- A taxonomy takes a schema in. -/
theorem Stocked.addSchema {queue : List Pending} {d : Discovery} (h : Stocked store queue d) {i : Nat} {t : Taxonomy}
    (ht : d.dts.taxonomies[i]? = some t) {location : String} {adopted : Option String} {root : Markup.Node} {s : Schema}
    {ds : List Diagnostic} (hdocument : store.document location = .ok root)
    (hread : Schema.read location adopted root = .ok ⟨s, ds⟩) (hns : s.ns = (root.attr? "targetNamespace").getD t.ns)
    (hmem : location ∈ t.documents) (hincluded : location = t.location ∨ location ∈ t.includes) :
    Stocked store (queue ++ pendingOf s i) (d.addSchema i s root) := by
  have hgrown {l : String} (u : Taxonomy) (hl : l ∈ u.includes ∨ l ∈ s.includes) : l ∈ (u.addSchema s).value.includes := by
    rw [Taxonomy.includes_addSchema]
    exact SortedSet.mem_insertAll.2 hl.symm
  refine ⟨?_, fun p hp j hj => ?_⟩
  · rw [addSchema_dts]
    refine forall_mem_modify h.faithful fun u hu => ?_
    cases ht.symm.trans hu
    exact (h.faithful t (List.mem_of_getElem? ht)).addSchema hdocument hread hns hmem hincluded
  · rw [addSchema_dts]
    rcases List.mem_append.1 hp with hp | hp
    · exact (h.including p hp j hj).modify fun u hu => hgrown u (.inl hu)
    · obtain ⟨rfl, hl⟩ := includes_of_mem_pendingOf hread hp hj
      refine ⟨(t.addSchema s).value, ?_, hgrown t (.inr hl)⟩
      change (d.dts.taxonomies.modify j _)[j]? = _
      rw [List.getElem?_modify_eq, ht]
      rfl

/-- A document becomes one of a taxonomy. -/
theorem Stocked.registerLocation {queue : List Pending} {d : Discovery} (h : Stocked store queue d) (location : String)
    (i : Nat) (ds : List Diagnostic) :
    Stocked store queue { d.report ds with dts := d.dts.registerLocation location i } where
  faithful := forall_mem_modify h.faithful fun u hu => (h.faithful u (List.mem_of_getElem? hu)).insertDocument location
  including p hp j hj := (h.including p hp j hj).modify fun _ hl => hl

theorem Stocked.enter {queue : List Pending} {p : Pending} {d d' : Discovery} (h : Stocked store (p :: queue) d)
    {root : Markup.Node} (hdocument : store.document p.location = .ok root) {i : Nat} {more : List Pending}
    (henter : d.enter p.location p.origin root = .ok (d', i, more)) : Stocked store (queue ++ more) d' := by
  have hqueue : Stocked store queue d := ⟨h.faithful, fun q hq => h.including q (List.mem_cons_of_mem _ hq)⟩
  obtain ⟨s, ds, hread, ⟨rfl, horigin, rfl⟩ | ⟨rfl, -, rfl, -⟩ | ⟨rfl, -, rfl, rfl, hadopted⟩⟩ :=
    enter_cases_adopted henter
  · obtain ⟨t, ht, hl⟩ := h.including p List.mem_cons_self i horigin
    have hns : s.ns = (root.attr? "targetNamespace").getD t.ns := by
      rw [Schema.ns_of_read hread, horigin]
      change ((root.attr? "targetNamespace").or (d.dts.taxonomies[i]?.map (·.ns))).getD "" = _
      rw [ht]
      cases root.attr? "targetNamespace" <;> rfl
    have hregistered : (d.dts.registerLocation p.location i).taxonomies[i]? =
        some { t with documents := t.documents.insert p.location } := by
      change (d.dts.taxonomies.modify i _)[i]? = _
      rw [List.getElem?_modify_eq, ht]
      rfl
    exact (hqueue.registerLocation p.location i ds).addSchema hregistered hdocument hread hns
      (SortedSet.mem_insert.2 (.inl rfl)) (.inr hl)
  · rw [List.append_nil]
    exact hqueue.registerLocation p.location i ds
  · have hns : s.ns = (root.attr? "targetNamespace").getD "" := by
      rw [Schema.ns_of_read hread, hadopted, Option.or_none]
    have hadded : Stocked store queue
        { d.report ds with dts := d.dts.addTaxonomy (.start s.ns p.location s.nsPrefix) } := by
      refine ⟨fun t ht => ?_, fun q hq j hj => (hqueue.including q hq j hj).append _⟩
      rcases List.mem_append.1 ht with ht | ht
      · exact h.faithful t ht
      · rw [List.mem_singleton.1 ht]
        exact Taxonomy.faithful_start hdocument hns _
    have hnew : (d.dts.addTaxonomy (.start s.ns p.location s.nsPrefix)).taxonomies[d.dts.taxonomies.length]? =
        some (.start s.ns p.location s.nsPrefix) := List.getElem?_concat_length
    refine hadded.addSchema hnew hdocument hread ?_ (SortedSet.mem_ofList.2 (List.mem_singleton.2 rfl)) (.inl rfl)
    change s.ns = (root.attr? "targetNamespace").getD s.ns
    rw [hns]
    cases root.attr? "targetNamespace" <;> rfl

theorem stable_stocked (store : Store) : Stable store fun _ queue d => Stocked store queue d where
  skip h _ := ⟨h.faithful, fun q hq => h.including q (List.mem_cons_of_mem _ hq)⟩
  leave h _ _ hdts _ _ := ⟨hdts ▸ h.faithful, hdts ▸ fun q hq => h.including q (List.mem_cons_of_mem _ hq)⟩
  enter {seen p queue d d' i more root} h _ hdocument henter := by
    have hasked : Stocked store (p :: queue) (d.ask p.location) := ⟨h.faithful, h.including⟩
    exact hasked.enter hdocument henter
  main _ h := ⟨h.faithful, h.including⟩

/-- Pending schemas that no taxonomy includes may come first. -/
theorem Stocked.push {queue more : List Pending} {d : Discovery} (h : Stocked store queue d)
    (hmore : ∀ p ∈ more, ∀ i, p.origin ≠ .including i) : Stocked store (more ++ queue) d where
  faithful := h.faithful
  including p hp i hi := by
    rcases List.mem_append.1 hp with hp | hp
    · exact absurd hi (hmore p hp i)
    · exact h.including p hp i hi

theorem Stocked.addLinkbases {queue : List Pending} {d : Discovery} (h : Stocked store queue d)
    (linkbases : List (String × Markup.Node)) : Stocked store queue (d.addLinkbases linkbases) := by
  refine List.foldlRecOn (motive := fun e : Discovery => Stocked store queue e) linkbases addLinkbase h
    fun e he linkbase _ => ⟨fun t ht => ?_, fun p hp i hi => ?_⟩
  · obtain ⟨u, hu, rfl⟩ := List.mem_map.1 ht
    exact (he.faithful u hu).attach _ _
  · obtain ⟨t, ht, hl⟩ := he.including p hp i hi
    exact ⟨_, (List.getElem?_map ..).trans (congrArg _ ht), hl⟩

theorem Stocked.round {seen : SortedSet String} {d : Discovery} (h : Stocked store [] d) (locators : Bool) :
    Stocked store [] (round store locators seen d).2 := by
  have hdts := (takeLinkbases_fst store d).1
  have htaken : Stocked store [] (d.takeLinkbases store).1 := ⟨hdts ▸ h.faithful, fun _ hp => by cases hp⟩
  have hpushed : Stocked store ((if locators then
      (d.takeLinkbases store).1.targets seen (d.takeLinkbases store).2 else []) ++ []) (d.takeLinkbases store).1 := by
    refine htaken.push fun p hp i hi => ?_
    split at hp
    · rw [origin_of_mem_targets hp] at hi
      cases hi
    · cases hp
  rw [List.append_nil] at hpushed
  exact ((stable_stocked store).drain _ hpushed).addLinkbases _

/-- A load from nothing leaves taxonomies that are true to their documents. -/
theorem faithful_load {options : Options} {entries : List String} {journal : Journal} {receipt : Receipt}
    (h : (load store options entries { dts := {}, journal := journal }).2 = .ok receipt) :
    ∀ t ∈ (load store options entries { dts := {}, journal := journal }).1.dts.taxonomies, t.Faithful store := by
  have hempty : Stocked store [] { dts := {}, journal := journal } :=
    ⟨fun t ht => (List.not_mem_nil ht).elim, fun _ hp => by cases hp⟩
  have hpush {queue : List Pending} {d : Discovery} (h : Stocked store queue d) (e : String) :
      Stocked store ([.of e .entry] ++ queue) d := by
    refine h.push fun p hp i hi => ?_
    rw [List.mem_singleton.1 hp] at hi
    cases hi
  obtain ⟨_, hstocked⟩ := (stable_stocked store).load (fun h e _ => hpush h e) (fun h => h.round options.locators)
    hempty h
  exact hstocked.faithful

end Discovery

namespace Dts

/-- The class of an element is that of its name, whatever taxonomy stores it. -/
theorem get?_classes {d : Dts} {t : Taxonomy} (ht : t ∈ d.taxonomies) {x : String} {e : Element}
    (he : t.elements.get? x = some e) : d.classes.get? e.name = some (d.declarations.classify e.name) := by
  have hclasses : d.classes = ((d.taxonomies.flatMap (·.elements.values)).map (·.name)).foldl
      (fun m q => m.insert q (d.declarations.classify q)) ∅ := by
    unfold classes SortedMap.ofList
    rw [List.foldl_map, List.foldl_map]
    rfl
  have hname : e.name ∈ (d.taxonomies.flatMap (·.elements.values)).map (·.name) :=
    List.mem_map.2 ⟨e, List.mem_flatMap.2 ⟨t, ht, SortedMap.mem_values_of_get? he⟩, rfl⟩
  rw [hclasses, SortedMap.get?_foldl_insert, if_pos hname]

/-- A reference that resolves to a concept finds its element in the taxonomy of its document. -/
theorem exists_element_of_resolve {d : Dts} {href : Href} {q : QName} (h : d.resolve href = some (.concept q)) :
    ∃ t x e, d.taxonomyAt? href.document = some t ∧ t.elements.get? x = some e ∧ e.name = q := by
  unfold resolve at h
  obtain ⟨id, -, h⟩ := Option.bind_eq_some_iff.1 h
  split at h
  · rename_i e he
    cases h
    obtain ⟨t, ht, he⟩ := Option.bind_eq_some_iff.1 he
    obtain ⟨x, -, he⟩ := Option.bind_eq_some_iff.1 he
    exact ⟨t, x, e, ht, he, rfl⟩
  · obtain ⟨r, -, hr⟩ := Option.map_eq_some_iff.1 h
    cases hr

end Dts

namespace Sample

/-- A schema that includes one with another target namespace. -/
def foreign : List (String × String) := [
  ("a.xsd", "<schema xmlns=\"http://www.w3.org/2001/XMLSchema\" targetNamespace=\"a\">" ++
    "<include schemaLocation=\"b.xsd\"/></schema>"),
  ("b.xsd", "<schema xmlns=\"http://www.w3.org/2001/XMLSchema\" targetNamespace=\"b\">" ++
    "<element name=\"x\" id=\"x\"/></schema>")]

set_option maxRecDepth 100000 in
/-- The element is stored in the taxonomy of the schema that includes its own. -/
theorem load_foreign :
    (∃ receipt, (Session.load {} (Shelf.ofTexts foreign).store {} ["a.xsd"]).2.2 = .ok receipt) ∧
    let d := (Session.load {} (Shelf.ofTexts foreign).store {} ["a.xsd"]).1.dts
    d.resolve ⟨"b.xsd", some "x"⟩ = some (.concept ⟨"b", "x"⟩) ∧ d.element? ⟨"b", "x"⟩ = none := by
  refine load_ofTexts foreign (fun d => d.resolve ⟨"b.xsd", some "x"⟩ = _ ∧ d.element? ⟨"b", "x"⟩ = none) 5 ?_ ?_
  all_goals
    unfold foreign
    simp only [List.map_cons, List.map_nil]
    repeat rw [String.toList_append]
    repeat rw [String.toList_ofList]
    decide +kernel

end Sample

namespace Session

theorem faithful_load {store : Store} {options : Discovery.Options} {entries : List String}
    {receipt : Discovery.Receipt} (hok : (Session.load {} store options entries).2.2 = .ok receipt) :
    ∀ t ∈ (Session.load {} store options entries).1.dts.taxonomies, t.Faithful store := by
  obtain ⟨hresult, hdts⟩ := load_eq {} store options entries
  rw [hdts]
  exact Discovery.faithful_load (hresult.symm.trans hok)

/-- After a load each taxonomy is found under its namespace. The elements that it stores have their local names, and
belong to the target namespaces of their documents; only elements of included documents may be of other namespaces
than the taxonomy. A concept that a reference resolves to is an element stored in the taxonomy of the document, with
the class of its name, and is found under its name exactly if its namespace is that of the taxonomy. -/
theorem elements_stored {store : Store} {options : Discovery.Options} {entries : List String}
    {receipt : Discovery.Receipt} (hok : (Session.load {} store options entries).2.2 = .ok receipt) :
    let s := (Session.load {} store options entries).1
    (∀ t ∈ s.dts.taxonomies, s.dts.taxonomyOf? t.ns = some t ∧ ∀ x e, t.elements.get? x = some e →
      t.Stores store x e ∧ (e.document ∉ t.includes → e.name = ⟨t.ns, x⟩)) ∧
    ∀ href q, s.dts.resolve href = some (.concept q) → ∃ t e, s.dts.taxonomyAt? href.document = some t ∧
      t.elements.get? q.localName = some e ∧ e.name = q ∧ s.index.classOf q = s.dts.declarations.classify q ∧
      (s.dts.element? q = some e ↔ q.ns = t.ns) := by
  intro s
  obtain ⟨hresult, hdts⟩ := load_eq {} store options entries
  have hconsistent : s.dts.Consistent := consistent_load store options entries {}
  have hfaithful : ∀ t ∈ s.dts.taxonomies, t.Faithful store := by
    rw [hdts]
    exact Discovery.faithful_load (hresult.symm.trans hok)
  refine ⟨fun t ht => ⟨hconsistent.taxonomyOf?_eq_some_iff.2 ⟨ht, rfl⟩, fun x e he => ?_⟩, fun href q hq => ?_⟩
  · have hstores := (hfaithful t ht).stores he
    refine ⟨hstores, fun hincluded => ?_⟩
    have hns := (hfaithful t ht).ns_of_first he (hstores.included.resolve_right hincluded)
    rw [← hns, ← hstores.localName]
  · obtain ⟨t, x, e, hat, he, rfl⟩ := Dts.exists_element_of_resolve hq
    obtain ⟨ht, -⟩ := Dts.taxonomyAt?_eq_some hconsistent.toIndexed hat
    obtain rfl := ((hfaithful t ht).stores he).localName
    refine ⟨t, e, hat, he, rfl, ?_, ?_⟩
    · unfold Index.classOf
      rw [index_load hok]
      change (s.dts.classes.get? e.name).getD .other = _
      rw [Dts.get?_classes ht he, Option.getD_some]
    · unfold Dts.element?
      constructor
      · intro hfound
        obtain ⟨u, hu, he'⟩ := Option.bind_eq_some_iff.1 hfound
        obtain ⟨humem, hns⟩ := hconsistent.taxonomyOf?_eq_some_iff.1 hu
        -- the document of the element belongs to one taxonomy only
        have hut := hconsistent.taxonomyAt?_of_mem humem ((hfaithful u humem).stores he').document
        rw [hconsistent.taxonomyAt?_of_mem ht ((hfaithful t ht).stores he).document, Option.some_inj] at hut
        exact hut ▸ hns.symm
      · intro hns
        rw [hconsistent.taxonomyOf?_eq_some_iff.2 ⟨ht, hns.symm⟩]
        exact he

/-- The element of the included schema is stored in the taxonomy of the other one, and not found under its name. -/
theorem elements_stored_foreign :
    let loaded := Session.load {} (Shelf.ofTexts Sample.foreign).store {} ["a.xsd"]
    (∃ receipt, loaded.2.2 = .ok receipt) ∧ ∃ t e, loaded.1.dts.taxonomyAt? "b.xsd" = some t ∧
      t.elements.get? "x" = some e ∧ e.name = ⟨"b", "x"⟩ ∧ loaded.1.dts.element? ⟨"b", "x"⟩ ≠ some e ∧ t.ns ≠ "b" := by
  obtain ⟨⟨receipt, hok⟩, hresolve, hnone⟩ := Sample.load_foreign
  refine ⟨⟨receipt, hok⟩, ?_⟩
  obtain ⟨t, e, hat, he, hname, -, hfound⟩ := (elements_stored hok).2 ⟨"b.xsd", some "x"⟩ _ hresolve
  have hmissing : (Session.load {} (Shelf.ofTexts Sample.foreign).store {} ["a.xsd"]).1.dts.element? ⟨"b", "x"⟩ ≠
      some e := by
    rw [hnone]
    nofun
  exact ⟨t, e, hat, he, hname, hmissing, fun hns => hmissing (hfound.2 hns.symm)⟩

/-- Elements need not have the namespace of the taxonomy that stores them, and concepts that references resolve to
need not be found under their names. -/
theorem not_forall_element?_of_resolve :
    ¬ ∀ (store : Store) (options : Discovery.Options) (entries : List String) (receipt : Discovery.Receipt),
      (Session.load {} store options entries).2.2 = .ok receipt →
      let s := (Session.load {} store options entries).1
      (∀ t ∈ s.dts.taxonomies, s.dts.taxonomyOf? t.ns = some t ∧
        ∀ x e, t.elements.get? x = some e → e.name = ⟨t.ns, x⟩) ∧
      ∀ href q, s.dts.resolve href = some (.concept q) → ∃ e, s.dts.element? q = some e ∧
        s.index.classOf q = s.dts.declarations.classify q := by
  intro h
  obtain ⟨⟨receipt, hok⟩, hresolve, hnone⟩ := Sample.load_foreign
  obtain ⟨e, he, -⟩ := (h _ _ _ receipt hok).2 _ _ hresolve
  rw [hnone] at he
  cases he

end Session

end TaxonomySet
