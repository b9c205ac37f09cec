import TaxonomySet.Proofs.Discovery.Including

namespace TaxonomySet

namespace Schema

/-- What a schema adopts matters only for its namespace. -/
theorem read_congr {location : String} {adopted adopted' : Option String} {root : Markup.Node}
    (h : ((root.attr? "targetNamespace").or adopted).getD "" = ((root.attr? "targetNamespace").or adopted').getD "") :
    read location adopted root = read location adopted' root := by
  unfold read
  rw [h]

end Schema

namespace Taxonomy

/-- Whether the ids of the elements of a taxonomy all lead to elements, and each to one whose document has the highest
rank of those that use the id. There is one index of ids for the elements of all its documents, and an id that several
of them use leads to the element of the document that was read last. -/
structure Latest (t : Taxonomy) (rank : String → Nat) : Prop where
  entered : ∀ {y k f}, t.elements.get? y = some k → k.id = some f → (t.ids.get? f).isSome = true
  last : ∀ {f x}, t.ids.get? f = some x → ∃ e, t.elements.get? x = some e ∧ e.id = some f ∧
    ∀ {y k}, t.elements.get? y = some k → k.id = some f → rank k.document ≤ rank e.document

variable {t : Taxonomy} {rank : String → Nat}

theorem latest_start (ns location : String) (nsPrefix : Option String) :
    (start ns location nsPrefix).Latest rank where
  entered h := by cases h
  last h := by cases h

/-- Only the ranks of documents with elements count. -/
theorem Latest.congr (h : t.Latest rank) {rank' : String → Nat}
    (heq : ∀ {y k}, t.elements.get? y = some k → rank' k.document = rank k.document) : t.Latest rank' where
  entered := h.entered
  last hx := by
    obtain ⟨e, he, hid, hmax⟩ := h.last hx
    refine ⟨e, he, hid, fun hk hkid => ?_⟩
    rw [heq hk, heq he]
    exact hmax hk hkid

theorem get?_elements_addElement {e : Element} {y : String} {k : Element}
    (h : (t.addElement e).elements.get? y = some k) : k = e ∨ y ≠ e.name.localName ∧ t.elements.get? y = some k := by
  change (t.elements.insert e.name.localName e).get? y = some k at h
  by_cases hy : y = e.name.localName
  · rw [hy, SortedMap.get?_insert_self, Option.some_inj] at h
    exact .inl h.symm
  · rw [SortedMap.get?_insert_of_ne _ _ hy] at h
    exact .inr ⟨hy, h⟩

/-- A new element takes its id over from an element that had it. -/
theorem get?_ids_addElement (t : Taxonomy) (e : Element) (f : String) :
    (t.addElement e).ids.get? f = if e.id = some f then some e.name.localName else t.ids.get? f := by
  unfold addElement
  cases hid : e.id with
  | none => rw [if_neg (by simp)]
  | some id =>
    dsimp only
    by_cases hf : f = id
    · subst hf
      rw [SortedMap.get?_insert_self, if_pos rfl]
    · rw [SortedMap.get?_insert_of_ne _ _ hf, if_neg fun heq => hf (Option.some_inj.1 heq).symm]

/-- A new element of a document with the highest rank may be added. -/
theorem Latest.addElement (h : t.Latest rank) {e : Element} (hnew : t.elements.get? e.name.localName = none)
    (hle : ∀ {y k}, t.elements.get? y = some k → rank k.document ≤ rank e.document) :
    (t.addElement e).Latest rank where
  entered {y k f} hk hid := by
    rw [get?_ids_addElement]
    split
    · rfl
    · rename_i hne
      rcases get?_elements_addElement hk with rfl | ⟨-, hk⟩
      · exact absurd hid hne
      · exact h.entered hk hid
  last {f x} hx := by
    rw [get?_ids_addElement] at hx
    split at hx
    · rename_i hid
      obtain rfl := Option.some_inj.1 hx
      refine ⟨e, SortedMap.get?_insert_self .., hid, fun hk _ => ?_⟩
      rcases get?_elements_addElement hk with rfl | ⟨-, hk⟩
      · exact Nat.le_refl _
      · exact hle hk
    · rename_i hne
      obtain ⟨e', he', hid, hmax⟩ := h.last hx
      have hother : x ≠ e.name.localName := by
        rintro rfl
        rw [hnew] at he'
        cases he'
      refine ⟨e', (SortedMap.get?_insert_of_ne _ _ hother).trans he', hid, fun hk hkid => ?_⟩
      rcases get?_elements_addElement hk with rfl | ⟨-, hk⟩
      · exact absurd hkid hne
      · exact hmax hk hkid

/-- A schema may be added whose document has the highest rank. -/
theorem Latest.addSchema (h : t.Latest rank) {s : Schema} (hdocument : ∀ e ∈ s.elements, e.document = s.location)
    (hle : ∀ {y k}, t.elements.get? y = some k → rank k.document ≤ rank s.location) :
    (t.addSchema s).value.Latest rank ∧
      ∀ {y k}, (t.addSchema s).value.elements.get? y = some k → rank k.document ≤ rank s.location := by
  -- both are kept as the elements are declared one after the other
  have hfold : ((s.elements.foldl (declare s.location) ⟨t, []⟩).value.Latest rank ∧
      ∀ {y k}, (s.elements.foldl (declare s.location) ⟨t, []⟩).value.elements.get? y = some k →
        rank k.document ≤ rank s.location) := by
    refine List.foldlRecOn (motive := fun acc : Reported Taxonomy => acc.value.Latest rank ∧
      ∀ {y k}, acc.value.elements.get? y = some k → rank k.document ≤ rank s.location) s.elements (declare s.location)
      ⟨h, hle⟩ fun acc ⟨hlatest, hle⟩ e he => ?_
    unfold declare
    split
    · exact ⟨hlatest, hle⟩
    · rename_i hcontains
      rw [← hdocument e he] at hle ⊢
      refine ⟨hlatest.addElement (Option.not_isSome_iff_eq_none.1 hcontains) hle, fun hk => ?_⟩
      rcases get?_elements_addElement hk with rfl | ⟨-, hk⟩
      · exact Nat.le_refl _
      · exact hle hk
  exact ⟨⟨hfold.1.entered, hfold.1.last⟩, hfold.2⟩

end Taxonomy

namespace Discovery

/-- The place of the first turn of a location. -/
def turnOf (ts : List Pending) (l : String) : Nat := (ts.map (·.location)).idxOf l

variable {store : Store} {ts more : List Pending} {p q : Pending} {d d' : Discovery} {root : Markup.Node} {i : Nat}

theorem turnOf_concat (hq : q ∈ ts) (p : Pending) : turnOf (ts ++ [p]) q.location = turnOf ts q.location := by
  unfold turnOf
  rw [List.map_append, List.idxOf_append_of_mem (List.mem_map_of_mem hq)]

theorem turnOf_lt_last (hq : q ∈ ts) (hfresh : ∀ r ∈ ts, r.location ≠ p.location) :
    turnOf (ts ++ [p]) q.location < turnOf (ts ++ [p]) p.location := by
  rw [turnOf_concat hq]
  unfold turnOf
  rw [List.map_append, List.idxOf_append_of_notMem fun hmem => ?_]
  · exact Nat.lt_add_right _ (List.idxOf_lt_length_iff.2 (List.mem_map_of_mem hq))
  · obtain ⟨r, hr, heq⟩ := List.mem_map.1 hmem
    exact hfresh r hr heq

/-- Whether an element is declared in its document. -/
def Declared (store : Store) (k : Element) : Prop :=
  ∃ root adopted s, store.document k.document = .ok root ∧ Schema.read k.document adopted root = .ok s ∧
    k ∈ s.value.elements

/-- What each turn keeps. -/
structure Numbered (store : Store) (ts : List Pending) (d : Dts) : Prop where
  made : d.MadeOf ts
  declared : ∀ t ∈ d.taxonomies, ∀ {x k}, t.elements.get? x = some k → Declared store k
  latest : ∀ t ∈ d.taxonomies, t.Latest (turnOf ts)

theorem Numbered.concat {d : Dts} (h : Numbered store ts d) (p : Pending) : Numbered store (ts ++ [p]) d where
  made := madeOf_concat h.made p
  declared := h.declared
  latest t ht := (h.latest t ht).congr fun hk => by
    obtain ⟨q, hq, heq⟩ := h.made.stored t ht hk
    rw [← heq, turnOf_concat hq]

/-- A taxonomy keeps an element only if its document declares it when it is read for the taxonomy. -/
theorem mem_of_declared {t : Taxonomy} {x : String} {k : Element} (hstores : t.Stores store x k)
    (hdeclared : Declared store k) (hroot : store.document k.document = .ok root) {s : Reported Schema}
    (hread : Schema.read k.document (some t.ns) root = .ok s) : k ∈ s.value.elements := by
  obtain ⟨root', adopted, ⟨s', ds⟩, hroot', hread', hmem⟩ := hdeclared
  rw [hroot, Except.ok.injEq] at hroot'
  subst hroot'
  obtain ⟨root', hroot', hns⟩ := hstores.ns
  rw [hroot, Except.ok.injEq] at hroot'
  subst hroot'
  rw [(Schema.element_of_read hread' hmem).1, Schema.ns_of_read hread'] at hns
  have hsame : Schema.read k.document adopted root = Schema.read k.document (some t.ns) root := by
    refine Schema.read_congr (hns.trans ?_)
    cases root.attr? "targetNamespace" <;> rfl
  rw [← hsame, hread', Except.ok.injEq] at hread
  exact hread ▸ hmem

theorem declared_enter (h : ∀ t ∈ d.dts.taxonomies, ∀ x k, t.elements.get? x = some k → Declared store k)
    (hdocument : store.document p.location = .ok root)
    (henter : d.enter p.location p.origin root = .ok (d', i, more)) :
    ∀ t ∈ d'.dts.taxonomies, ∀ x k, t.elements.get? x = some k → Declared store k := by
  refine forall_mem_of_enter henter h (fun _ _ _ _ hk => by cases hk) (fun _ ht => ht)
    fun t adopted s ds hread ht x k hk => ?_
  rw [Taxonomy.get?_elements_addSchema] at hk
  rcases Option.or_eq_some_iff.1 hk with hk | ⟨-, hk⟩
  · exact ht x k hk
  · have hmem := List.mem_of_find?_eq_some hk
    have hlocation := (Schema.element_of_read hread hmem).2
    exact ⟨root, adopted, ⟨s, ds⟩, hlocation ▸ hdocument, hlocation ▸ hread, hmem⟩

theorem Numbered.enter (h : Numbered store ts d.dts) (hfresh : ∀ r ∈ ts, r.location ≠ p.location)
    (hdocument : store.document p.location = .ok root)
    (henter : d.enter p.location p.origin root = .ok (d', i, more)) : Numbered store (ts ++ [p]) d'.dts := by
  have hdeclared := declared_enter (fun t ht _ _ hk => h.declared t ht hk) hdocument henter
  refine ⟨madeOf_enter h.made henter, fun t ht _ _ hk => hdeclared t ht _ _ hk, fun u hu => ?_⟩
  -- all that is there was read before
  have hle {t : Taxonomy} (ht : t ∈ d.dts.taxonomies) {y : String} {k : Element} (hk : t.elements.get? y = some k) :
      turnOf (ts ++ [p]) k.document ≤ turnOf (ts ++ [p]) p.location := by
    obtain ⟨q, hq, heq⟩ := h.made.stored t ht hk
    exact heq ▸ Nat.le_of_lt (turnOf_lt_last hq hfresh)
  refine (forall_mem_of_enter henter (P := fun t => t.Latest (turnOf (ts ++ [p])) ∧ ∀ {y k},
    t.elements.get? y = some k → turnOf (ts ++ [p]) k.document ≤ turnOf (ts ++ [p]) p.location)
    (fun t ht => ⟨(h.concat p).latest t ht, hle ht⟩)
    (fun _ _ => ⟨Taxonomy.latest_start _ _ _, fun hk => by cases hk⟩)
    (fun _ ⟨hlatest, hle⟩ => ⟨⟨hlatest.entered, hlatest.last⟩, hle⟩) (fun t _ s _ hread ⟨hlatest, hle⟩ => ?_) u hu).1
  have hs := Schema.location_of_read hread
  rw [← hs] at hle ⊢
  exact hlatest.addSchema (fun e he => (Schema.element_of_read hread he).2.trans hs.symm) hle

theorem lasting_numbered (store : Store) : Lasting store fun ts _ d => Numbered store ts d where
  skip h _ := h.concat _
  leave h _ _ := h.concat _
  enter h hfresh _ _ hdocument henter := h.enter hfresh hdocument henter
  push h _ := h
  main _ h := ⟨⟨h.made.started, h.made.stored⟩, h.declared, h.latest⟩
  link location links h := by
    refine ⟨madeOf_addLinkbase h.made location links, fun u hu => ?_, fun u hu => ?_⟩
    all_goals obtain ⟨t, ht, rfl⟩ := List.mem_map.1 hu
    · exact h.declared t ht
    · exact ⟨(h.latest t ht).entered, (h.latest t ht).last⟩

theorem numbered_empty (store : Store) : Numbered store [] {} where
  made := ⟨fun _ ht => (List.not_mem_nil ht).elim, fun _ ht => (List.not_mem_nil ht).elim⟩
  declared _ ht := (List.not_mem_nil ht).elim
  latest _ ht := (List.not_mem_nil ht).elim

end Discovery

namespace Sample

/-- Two schemas, one included by the other, each with an element of the same id. -/
def homonymous : List (String × String) := [
  ("a.xsd", "<schema xmlns=\"http://www.w3.org/2001/XMLSchema\" targetNamespace=\"a\">" ++
    "<include schemaLocation=\"b.xsd\"/><element name=\"x\" id=\"f\"/></schema>"),
  ("b.xsd", "<schema xmlns=\"http://www.w3.org/2001/XMLSchema\"><element name=\"y\" id=\"f\"/></schema>")]

/-- The element of the schema that includes the other. -/
def homonym : Element where
  id := some "f"
  name := ⟨"a", "x"⟩
  typeName := none
  group := none
  isAbstract := false
  nillable := false
  periodType := none
  balance := none
  typedDomain := none
  document := "a.xsd"

set_option maxRecDepth 100000 in
/-- The id leads to the element of the included schema, also by way of the schema that includes it. -/
theorem load_homonymous :
    (∃ receipt, (Session.load {} (Shelf.ofTexts homonymous).store {} ["a.xsd"]).2.2 = .ok receipt) ∧
    let d := (Session.load {} (Shelf.ofTexts homonymous).store {} ["a.xsd"]).1.dts
    d.resolve ⟨"a.xsd", some "f"⟩ = some (.concept ⟨"a", "y"⟩) ∧
      d.taxonomies[0]?.map (fun t => (t.ns, t.elements.get? "x")) = some ("a", some homonym) := by
  refine load_ofTexts homonymous (fun d => d.resolve _ = _ ∧ d.taxonomies[0]?.map _ = _) 8 ?_ ?_
  all_goals
    unfold homonymous
    simp only [List.map_cons, List.map_nil]
    repeat rw [String.toList_append]
    repeat rw [String.toList_ofList]
    decide +kernel

set_option maxRecDepth 100000 in
/-- The schema that includes the other declares one element with the id. -/
theorem document_homonymous : ∃ root, (Shelf.ofTexts homonymous).store.document "a.xsd" = .ok root ∧
    (Schema.read "a.xsd" (some "a") root).toOption.map
      (fun s => s.value.elements.filter fun k => k.id == some "f") = some [homonym] := by
  refine document_ofTexts homonymous (fun root => (Schema.read "a.xsd" (some "a") root).toOption.map _ = some _) ?_ ?_
  all_goals
    unfold homonymous
    simp only [List.map_cons, List.map_nil]
    repeat rw [String.toList_append]
    repeat rw [String.toList_ofList]
    decide +kernel

end Sample

namespace Session

open Discovery

/-- Let a document declare one element with an id, and let a taxonomy keep that element. A reference by way of the
document to the id resolves to the element exactly if all other elements of the taxonomy with the id are of documents
that were read before. -/
theorem resolve_id_iff {store : Store} {options : Discovery.Options} {entries : List String}
    {receipt : Discovery.Receipt} (hok : (Session.load {} store options entries).2.2 = .ok receipt) :
    let d := (Session.load {} store options entries).1.dts
    ∃ ts, TakesTurns store options entries ts ∧
      ∀ t l root s f e, t ∈ d.taxonomies → store.document l = .ok root → Schema.read l (some t.ns) root = .ok s →
        s.value.elements.filter (fun k => k.id == some f) = [e] → t.elements.get? e.name.localName = some e →
        (d.resolve ⟨l, some f⟩ = some (.concept e.name) ↔ ∀ y k, t.elements.get? y = some k → k.id = some f → k ≠ e →
          turnOf ts k.document < turnOf ts l) := by
  intro d
  have hconsistent : d.Consistent := consistent_load store options entries {}
  have hfaithful : ∀ t ∈ d.taxonomies, t.Faithful store := faithful_load hok
  obtain ⟨ts, hts, hnumbered⟩ := exists_turns_of_load (lasting_numbered store) (numbered_empty store) hok
  refine ⟨ts, hts, fun t l root s f e ht hroot hread hone he => ?_⟩
  have hstores {y : String} {k : Element} := (hfaithful t ht).stores (x := y) (e := k)
  obtain ⟨hmem, hid⟩ := List.mem_filter.1 (hone ▸ List.mem_singleton_self e)
  rw [beq_iff_eq] at hid
  obtain rfl := (Schema.element_of_read hread hmem).2
  -- the element that the id leads to
  obtain ⟨x, hx⟩ := Option.isSome_iff_exists.1 ((hnumbered.latest t ht).entered he hid)
  obtain ⟨e', he', hid', hmax⟩ := (hnumbered.latest t ht).last hx
  have hresolve : d.resolve ⟨e.document, some f⟩ = some (.concept e'.name) := by
    have helement : (d.taxonomyAt? e.document).bind (·.elementById? f) = some e' := by
      rw [hconsistent.taxonomyAt?_of_mem ht (hstores he).document]
      unfold Taxonomy.elementById?
      rw [Option.bind_some, hx, Option.bind_some, he']
    unfold Dts.resolve
    rw [Option.bind_some, helement]
  rw [hresolve]
  constructor
  · intro heq y k hk hkid hne
    -- of two elements of one name in a taxonomy only one is kept
    have hname : e'.name = e.name := by simpa using heq
    rw [← (hstores he').localName, hname, he, Option.some_inj] at he'
    subst he'
    refine Nat.lt_of_le_of_ne (hmax hk hkid) fun hturn => hne ?_
    obtain ⟨q, hq, hlocation⟩ := hnumbered.made.stored t ht hk
    have hdocument : k.document = e.document :=
      (List.idxOf_inj (hlocation ▸ List.mem_map_of_mem (f := Pending.location) hq)).1 hturn
    have hmem' := mem_of_declared (hstores hk) (hnumbered.declared t ht hk) (hdocument ▸ hroot) (hdocument ▸ hread)
    exact List.mem_singleton.1 (hone ▸ List.mem_filter.2 ⟨hmem', beq_iff_eq.2 hkid⟩)
  · intro hall
    by_cases heq : e' = e
    · rw [heq]
    · exact absurd (hall x e' he' hid' heq) (Nat.not_lt.2 (hmax he hid))

/-- The id of the schema that was read first leads elsewhere, and so another element with the id was read later. -/
theorem resolve_id_homonymous :
    let loaded := Session.load {} (Shelf.ofTexts Sample.homonymous).store {} ["a.xsd"]
    (∃ receipt, loaded.2.2 = .ok receipt) ∧ ∃ ts, TakesTurns (Shelf.ofTexts Sample.homonymous).store {} ["a.xsd"] ts ∧
      ∃ t ∈ loaded.1.dts.taxonomies, ∃ y k, t.elements.get? y = some k ∧ k.id = some "f" ∧ k ≠ Sample.homonym ∧
        turnOf ts "a.xsd" ≤ turnOf ts k.document := by
  obtain ⟨⟨receipt, hok⟩, hresolve, htaxonomy⟩ := Sample.load_homonymous
  obtain ⟨root, hroot, hone⟩ := Sample.document_homonymous
  obtain ⟨t, ht, heq⟩ := Option.map_eq_some_iff.1 htaxonomy
  obtain ⟨hns, he⟩ := Prod.mk.inj heq
  obtain ⟨s, hread, hone⟩ := Option.map_eq_some_iff.1 hone
  have hmem := List.mem_of_getElem? ht
  obtain ⟨ts, hts, hall⟩ := resolve_id_iff hok
  refine ⟨⟨receipt, hok⟩, ts, hts, t, hmem, ?_⟩
  by_contra hnone
  have hlatest := (hall t "a.xsd" root s "f" Sample.homonym hmem hroot (hns ▸ Sample.eq_ok_of_toOption hread) hone
    he).2 fun y k hk hkid hne => Nat.lt_of_not_le fun hle => hnone ⟨y, k, hk, hkid, hne, hle⟩
  rw [hresolve] at hlatest
  exact absurd hlatest (by decide)

/-- An id need not lead to the one element of the document that has it, even if a taxonomy keeps that element. -/
theorem not_forall_resolve_id :
    ¬ ∀ (store : Store) (options : Discovery.Options) (entries : List String) (receipt : Discovery.Receipt),
      (Session.load {} store options entries).2.2 = .ok receipt →
      ∀ t l root s f e, t ∈ (Session.load {} store options entries).1.dts.taxonomies →
        store.document l = .ok root → Schema.read l (some t.ns) root = .ok s →
        s.value.elements.filter (fun k => k.id == some f) = [e] → t.elements.get? e.name.localName = some e →
        (Session.load {} store options entries).1.dts.resolve ⟨l, some f⟩ = some (.concept e.name) := by
  intro h
  obtain ⟨⟨receipt, hok⟩, hresolve, htaxonomy⟩ := Sample.load_homonymous
  obtain ⟨root, hroot, hone⟩ := Sample.document_homonymous
  obtain ⟨t, ht, heq⟩ := Option.map_eq_some_iff.1 htaxonomy
  obtain ⟨hns, he⟩ := Prod.mk.inj heq
  obtain ⟨s, hread, hone⟩ := Option.map_eq_some_iff.1 hone
  have hlatest := h _ _ _ receipt hok t "a.xsd" root s "f" Sample.homonym (List.mem_of_getElem? ht) hroot
    (hns ▸ Sample.eq_ok_of_toOption hread) hone he
  rw [hresolve] at hlatest
  exact absurd hlatest (by decide)

end Session

end TaxonomySet
