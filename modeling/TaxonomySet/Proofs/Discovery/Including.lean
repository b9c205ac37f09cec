import TaxonomySet.Proofs.Discovery.Storage
import TaxonomySet.Proofs.Discovery.Turns

namespace TaxonomySet

namespace Taxonomy

/-- What a taxonomy keeps when it grows. -/
structure Grows (t u : Taxonomy) : Prop where
  ns : u.ns = t.ns
  location : u.location = t.location
  includes : ∀ l ∈ t.includes, l ∈ u.includes
  elements : ∀ {x e}, t.elements.get? x = some e → u.elements.get? x = some e

theorem Grows.refl (t : Taxonomy) : t.Grows t := ⟨rfl, rfl, fun _ h => h, fun h => h⟩

theorem Grows.trans {t u v : Taxonomy} (h : t.Grows u) (h' : u.Grows v) : t.Grows v :=
  ⟨h'.ns.trans h.ns, h'.location.trans h.location, fun l hl => h'.includes l (h.includes l hl),
    fun he => h'.elements (h.elements he)⟩

theorem grows_addSchema (t : Taxonomy) (s : Schema) : t.Grows (t.addSchema s).value where
  ns := ns_addSchema t s
  location := location_addSchema t s
  includes l hl := by
    rw [includes_addSchema]
    exact SortedSet.mem_insertAll.2 (.inr hl)
  elements he := by rw [get?_elements_addSchema, he, Option.some_or]

theorem grows_insertDocument (t : Taxonomy) (l : String) : t.Grows { t with documents := t.documents.insert l } :=
  ⟨rfl, rfl, fun _ h => h, fun h => h⟩

theorem grows_attach (t : Taxonomy) (location : String) (links : List Nat) : t.Grows (t.attach location links) :=
  ⟨rfl, rfl, fun _ h => h, fun h => h⟩

/-- What a taxonomy has of a schema that it took in: what the schema includes, and its elements under their local
names. Of one name the first of the schema stays, unless an element of another document has the name. -/
structure Merged (t : Taxonomy) (s : Schema) : Prop where
  includes : ∀ l ∈ s.includes, l ∈ t.includes
  elements : ∀ x e, s.elements.find? (·.name.localName == x) = some e →
    ∃ k, t.elements.get? x = some k ∧ (k = e ∨ k.document ≠ s.location)

theorem Merged.mono {t u : Taxonomy} {s : Schema} (h : t.Merged s) (hgrows : t.Grows u) : u.Merged s where
  includes l hl := hgrows.includes l (h.includes l hl)
  elements x e he := (h.elements x e he).imp fun _ hk => hk.imp_left hgrows.elements

theorem merged_addSchema {t : Taxonomy} {s : Schema}
    (hnew : ∀ x k, t.elements.get? x = some k → k.document ≠ s.location) : (t.addSchema s).value.Merged s where
  includes l hl := by
    rw [includes_addSchema]
    exact SortedSet.mem_insertAll.2 (.inl hl)
  elements x e he := by
    rw [get?_elements_addSchema, he]
    cases hk : t.elements.get? x with
    | none => exact ⟨e, rfl, .inl rfl⟩
    | some k => exact ⟨k, rfl, .inr (hnew x k hk)⟩

end Taxonomy

namespace Dts

/-- The taxonomies of a set grow, and more may come. -/
def Grows (d e : Dts) : Prop :=
  ∀ (i : Nat) (t : Taxonomy), d.taxonomies[i]? = some t → ∃ u, e.taxonomies[i]? = some u ∧ t.Grows u

theorem Grows.trans {d e f : Dts} (h : d.Grows e) (h' : e.Grows f) : d.Grows f := by
  intro i t ht
  obtain ⟨u, hu, htu⟩ := h i t ht
  obtain ⟨v, hv, huv⟩ := h' i u hu
  exact ⟨v, hv, htu.trans huv⟩

theorem grows_modifyTaxonomy {d : Dts} {f : Taxonomy → Taxonomy} (hf : ∀ t : Taxonomy, t.Grows (f t)) (id : Nat) :
    d.Grows (d.modifyTaxonomy id f) := by
  intro i t ht
  change ∃ u, (d.taxonomies.modify id f)[i]? = some u ∧ _
  rw [List.getElem?_modify, ht]
  split
  · exact ⟨f t, rfl, hf t⟩
  · exact ⟨t, rfl, .refl t⟩

theorem grows_addTaxonomy (d : Dts) (t : Taxonomy) : d.Grows (d.addTaxonomy t) := by
  intro i u hu
  exact ⟨u, (List.getElem?_append_left (List.getElem?_eq_some_iff.1 hu).1).trans hu, .refl u⟩

theorem grows_addLinkbase (d : Dts) (location : String) (links : List ExtendedLink) :
    d.Grows (d.addLinkbase location links) := by
  intro i t ht
  exact ⟨_, (List.getElem?_map ..).trans (congrArg _ ht), t.grows_attach _ _⟩

end Dts

namespace Discovery

theorem grows_addSchema (d : Discovery) (taxonomy : Nat) (s : Schema) (root : Markup.Node) :
    d.dts.Grows (d.addSchema taxonomy s root).dts := by
  rw [addSchema_dts]
  exact Dts.grows_modifyTaxonomy (fun t => t.grows_addSchema s) taxonomy

theorem getElem?_addSchema {d : Discovery} {i : Nat} {t : Taxonomy} (ht : d.dts.taxonomies[i]? = some t) (s : Schema)
    (root : Markup.Node) : (d.addSchema i s root).dts.taxonomies[i]? = some (t.addSchema s).value := by
  rw [addSchema_dts]
  exact (List.getElem?_modify_eq ..).trans (congrArg _ ht)

variable {d d' : Discovery} {location : String} {origin : Origin} {root : Markup.Node} {i : Nat} {more : List Pending}

theorem grows_of_enter (h : d.enter location origin root = .ok (d', i, more)) : d.dts.Grows d'.dts := by
  have hregister : d.dts.Grows (d.dts.registerLocation location i) :=
    Dts.grows_modifyTaxonomy (d := { d.dts with byLocation := _ }) (fun t => t.grows_insertDocument location) i
  obtain ⟨_, s, ds, -, -, ⟨rfl, -, -⟩ | ⟨rfl, -, -⟩ | ⟨rfl, -, -, -⟩⟩ := enter_cases h
  · exact hregister.trans (grows_addSchema { d.report ds with dts := d.dts.registerLocation location i } i s root)
  · exact hregister
  · exact (Dts.grows_addTaxonomy d.dts _).trans
      (grows_addSchema { d.report ds with dts := d.dts.addTaxonomy (.start s.ns location s.nsPrefix) } i s root)

/-- What holds of all taxonomies is kept when a document is taken in, if it holds of new taxonomies, and is kept when
a document joins and when its schema is added. -/
theorem forall_mem_of_enter {P : Taxonomy → Prop} (h : d.enter location origin root = .ok (d', i, more))
    (hall : ∀ t ∈ d.dts.taxonomies, P t) (hstart : ∀ ns nsPrefix, P (.start ns location nsPrefix))
    (hdocument : ∀ t, P t → P { t with documents := t.documents.insert location })
    (hadd : ∀ t adopted s ds, Schema.read location adopted root = .ok ⟨s, ds⟩ → P t → P (t.addSchema s).value) :
    ∀ t ∈ d'.dts.taxonomies, P t := by
  have hregister : ∀ t ∈ (d.dts.registerLocation location i).taxonomies, P t :=
    forall_mem_modify hall fun t ht => hdocument t (hall t (List.mem_of_getElem? ht))
  have hschema {d : Discovery} {adopted s ds} (hread : Schema.read location adopted root = .ok ⟨s, ds⟩)
      (hall : ∀ t ∈ d.dts.taxonomies, P t) : ∀ t ∈ (d.addSchema i s root).dts.taxonomies, P t := by
    rw [addSchema_dts]
    exact forall_mem_modify hall fun t ht => hadd t adopted s ds hread (hall t (List.mem_of_getElem? ht))
  obtain ⟨adopted, s, ds, hread, -, ⟨rfl, -, -⟩ | ⟨rfl, -, -⟩ | ⟨rfl, -, -, -⟩⟩ := enter_cases h
  · exact hschema hread hregister
  · exact hregister
  · refine hschema hread fun t ht => ?_
    rcases List.mem_append.1 ht with ht | ht
    · exact hall t ht
    · rw [List.mem_singleton.1 ht]
      exact hstart _ _

/-- What a taxonomy includes after a document was taken in it included before, or that is pending on its behalf. -/
theorem includes_of_enter (h : d.enter location origin root = .ok (d', i, more)) {j : Nat} {l : String}
    (hl : Includes d'.dts.taxonomies j l) :
    Includes d.dts.taxonomies j l ∨ ∃ q ∈ more, q.location = l ∧ q.origin = .including j := by
  have hregister {l : String} (hl : Includes (d.dts.registerLocation location i).taxonomies j l) :
      Includes d.dts.taxonomies j l := by
    obtain ⟨u, hu, hl⟩ := hl
    change (d.dts.taxonomies.modify i _)[j]? = some u at hu
    rw [List.getElem?_modify] at hu
    obtain ⟨t, ht, rfl⟩ := Option.map_eq_some_iff.1 hu
    split at hl <;> exact ⟨t, ht, hl⟩
  have hschema {d : Discovery} {adopted s ds} (hread : Schema.read location adopted root = .ok ⟨s, ds⟩)
      (hl : Includes (d.addSchema i s root).dts.taxonomies j l) :
      Includes d.dts.taxonomies j l ∨ ∃ q ∈ pendingOf s i, q.location = l ∧ q.origin = .including j := by
    rw [addSchema_dts] at hl
    obtain ⟨u, hu, hmem⟩ := hl
    change (d.dts.taxonomies.modify i _)[j]? = some u at hu
    rw [List.getElem?_modify] at hu
    obtain ⟨t, ht, rfl⟩ := Option.map_eq_some_iff.1 hu
    split at hmem
    · rename_i hij
      subst hij
      rw [Taxonomy.includes_addSchema, SortedSet.mem_insertAll] at hmem
      rcases hmem with hmem | hmem
      · refine .inr ⟨.of l (.including i), List.mem_append_right _ (List.mem_map_of_mem hmem), ?_, rfl⟩
        exact Schema.normalize_named hread (.inr hmem)
      · exact .inl ⟨t, ht, hmem⟩
    · exact .inl ⟨t, ht, hmem⟩
  obtain ⟨adopted, s, ds, hread, -, ⟨rfl, -, rfl⟩ | ⟨rfl, -, rfl⟩ | ⟨rfl, -, -, rfl⟩⟩ := enter_cases h
  · exact (hschema hread hl).imp_left hregister
  · exact .inl (hregister hl)
  · refine (hschema hread hl).imp_left fun ⟨t, ht, hl⟩ => ?_
    change (d.dts.taxonomies ++ [_])[j]? = some t at ht
    rw [List.getElem?_append] at ht
    split at ht
    · exact ⟨t, ht, hl⟩
    · -- a taxonomy starts without includes
      rw [List.mem_singleton.1 (List.mem_of_getElem? ht)] at hl
      exact absurd hl (SortedSet.not_mem_empty l)

end Discovery

/-- Taxonomies are started with documents that had turns, and all their elements are of such documents. -/
structure Dts.MadeOf (d : Dts) (ts : List Pending) : Prop where
  started : ∀ t ∈ d.taxonomies, ∃ q ∈ ts, q.location = t.location
  stored : ∀ t ∈ d.taxonomies, ∀ {x e}, t.elements.get? x = some e → ∃ q ∈ ts, q.location = e.document

/-- What has become of the schema in a document if the location had its first turn for a given reason. As an include
it was merged into the taxonomy that includes it. Otherwise the document belongs to the taxonomy of its target
namespace, and the schema was merged into that if the taxonomy was started with it. -/
def Dts.Received (d : Dts) (p : Pending) (root : Markup.Node) : Prop :=
  ∃ i t s ds, d.byLocation.get? p.location = some i ∧ d.taxonomies[i]? = some t ∧
    match p.origin with
    | .including j => j = i ∧ Schema.read p.location (some t.ns) root = .ok ⟨s, ds⟩ ∧ t.Merged s
    | _ => Schema.read p.location none root = .ok ⟨s, ds⟩ ∧ t.ns = s.ns ∧ (t.location = p.location → t.Merged s)

theorem Dts.Received.mono {d e : Dts} {p : Pending} {root : Markup.Node} (h : d.Received p root) (hgrows : d.Grows e)
    (hlocation : e.byLocation.get? p.location = d.byLocation.get? p.location) : e.Received p root := by
  obtain ⟨i, t, s, ds, hi, ht, hcase⟩ := h
  obtain ⟨u, hu, htu⟩ := hgrows i t ht
  refine ⟨i, u, s, ds, hlocation.trans hi, hu, ?_⟩
  split
  · rename_i horigin
    rw [horigin] at hcase
    obtain ⟨hj, hread, hmerged⟩ := hcase
    exact ⟨hj, htu.ns ▸ hread, hmerged.mono htu⟩
  · rename_i hother
    split at hcase
    · rename_i horigin
      exact absurd horigin (hother _)
    · obtain ⟨hread, hns, hmerged⟩ := hcase
      exact ⟨hread, htu.ns.trans hns, fun hfirst => (hmerged (htu.location.symm.trans hfirst)).mono htu⟩

namespace Discovery

variable {store : Store} {ts more : List Pending} {p : Pending} {d d' : Discovery} {root : Markup.Node} {i : Nat}

theorem madeOf_concat {d : Dts} (h : d.MadeOf ts) (p : Pending) : d.MadeOf (ts ++ [p]) where
  started t ht := (h.started t ht).imp fun _ hq => hq.imp_left (List.mem_append_left _)
  stored t ht _ _ he := (h.stored t ht he).imp fun _ hq => hq.imp_left (List.mem_append_left _)

theorem madeOf_enter (h : d.dts.MadeOf ts) (henter : d.enter p.location p.origin root = .ok (d', i, more)) :
    d'.dts.MadeOf (ts ++ [p]) := by
  have hlast : p ∈ ts ++ [p] := List.mem_append_right _ (List.mem_singleton_self p)
  refine ⟨forall_mem_of_enter henter (madeOf_concat h p).started (fun _ _ => ⟨p, hlast, rfl⟩) (fun _ ht => ht)
    fun t _ s _ _ ht => ?_, fun u hu {x e} => ?_⟩
  · rwa [Taxonomy.location_addSchema]
  · refine forall_mem_of_enter henter
      (P := fun t => ∀ x e, t.elements.get? x = some e → ∃ q ∈ ts ++ [p], q.location = e.document)
      (fun t ht _ _ => (madeOf_concat h p).stored t ht) (fun _ _ _ _ he => by cases he) (fun _ ht => ht)
      (fun t _ s _ hread ht x e he => ?_) u hu x e
    rw [Taxonomy.get?_elements_addSchema] at he
    rcases Option.or_eq_some_iff.1 he with he | ⟨-, he⟩
    · exact ht x e he
    · exact ⟨p, hlast, (Schema.element_of_read hread (List.mem_of_find?_eq_some he)).2.symm⟩

theorem madeOf_addLinkbase {d : Dts} (h : d.MadeOf ts) (location : String) (links : List ExtendedLink) :
    (d.addLinkbase location links).MadeOf ts := by
  refine ⟨fun u hu => ?_, fun u hu x e he => ?_⟩
  all_goals obtain ⟨t, ht, rfl⟩ := List.mem_map.1 hu
  · exact h.started t ht
  · exact h.stored t ht he

/-- A schema is received when it is taken in at the first turn of its location. -/
theorem received_enter (hmade : d.dts.MadeOf ts) (hfresh : ∀ q ∈ ts, q.location ≠ p.location)
    (hconsistent : d.dts.Consistent) (horigin : ∀ j, p.origin = .including j → j < d.dts.taxonomies.length)
    (henter : d.enter p.location p.origin root = .ok (d', i, more)) : d'.dts.Received p root := by
  have hlocation : d'.dts.byLocation.get? p.location = some i := by
    rw [byLocation_of_enter henter]
    exact SortedMap.get?_insert_self ..
  -- no element of the document is there yet
  have hnew {t : Taxonomy} (ht : t ∈ d.dts.taxonomies) {s : Schema} (hs : s.location = p.location) :
      ∀ x k, t.elements.get? x = some k → k.document ≠ s.location := by
    intro x k hk heq
    obtain ⟨q, hq, hdocument⟩ := hmade.stored t ht hk
    exact hfresh q hq (hdocument.trans (heq.trans hs))
  have hgetElem (ds : List Diagnostic) {t : Taxonomy} (ht : d.dts.taxonomies[i]? = some t) :
      ({ d.report ds with dts := d.dts.registerLocation p.location i } : Discovery).dts.taxonomies[i]? =
        some { t with documents := t.documents.insert p.location } :=
    (List.getElem?_modify_eq ..).trans (congrArg _ ht)
  have hother (hadopted : d.adopted p.origin = none) : ∀ j, p.origin ≠ .including j := by
    intro j hj
    rw [hj, adopted, List.getElem?_eq_getElem (horigin j hj)] at hadopted
    cases hadopted
  obtain ⟨s, ds, hread, ⟨rfl, hincluding, -⟩ | ⟨rfl, hns, -, hadopted⟩ | ⟨rfl, -, rfl, -, hadopted⟩⟩ :=
    enter_cases_adopted henter
  all_goals have hs := Schema.location_of_read hread
  · obtain ⟨t, ht⟩ : ∃ t, d.dts.taxonomies[i]? = some t := ⟨_, List.getElem?_eq_getElem (horigin i hincluding)⟩
    refine ⟨i, _, s, ds, hlocation, getElem?_addSchema (hgetElem ds ht) s root, ?_⟩
    rw [hincluding]
    refine ⟨rfl, ?_, Taxonomy.merged_addSchema (hnew (List.mem_of_getElem? ht) hs)⟩
    rw [Taxonomy.ns_addSchema]
    rwa [hincluding, adopted, ht] at hread
  · obtain ⟨t, ht, hns⟩ := hconsistent.byNamespace.1 hns
    refine ⟨i, _, s, ds, hlocation, hgetElem ds ht, ?_⟩
    split
    · rename_i horigin'
      exact absurd horigin' (hother hadopted _)
    · -- the taxonomy was there before, so that it was started with another document
      refine ⟨hadopted ▸ hread, hns, fun hfirst => ?_⟩
      obtain ⟨q, hq, hlocation⟩ := hmade.started t (List.mem_of_getElem? ht)
      exact absurd (hlocation.trans hfirst) (hfresh q hq)
  · have hstart : (d.dts.addTaxonomy (.start s.ns p.location s.nsPrefix)).taxonomies[d.dts.taxonomies.length]? =
        some (.start s.ns p.location s.nsPrefix) := List.getElem?_concat_length
    refine ⟨_, _, s, ds, hlocation, getElem?_addSchema (d := { d.report ds with dts := _ }) hstart s root, ?_⟩
    split
    · rename_i horigin'
      exact absurd horigin' (hother hadopted _)
    · refine ⟨hadopted ▸ hread, Taxonomy.ns_addSchema _ s, fun _ => Taxonomy.merged_addSchema fun _ _ hk => ?_⟩
      cases hk

/-- What each turn keeps. Every include of a taxonomy is pending or had a turn on behalf of the taxonomy, and every
schema was received at the first turn of its location. -/
structure Placed (store : Store) (ts queue : List Pending) (d : Dts) : Prop where
  made : d.MadeOf ts
  offered : ∀ {i l}, Includes d.taxonomies i l → ∃ q ∈ ts ++ queue, q.location = l ∧ q.origin = .including i
  received : ∀ {q root}, ts.find? (·.location == q.location) = some q → store.document q.location = .ok root →
    root.isNamed Vocabulary.xmlSchema "schema" = true → d.Received q root

/-- The first turn of a location is the last turn of all only if the location had none before. -/
theorem find?_concat {q : Pending} (h : (ts ++ [p]).find? (·.location == q.location) = some q) :
    ts.find? (·.location == q.location) = some q ∨ q = p ∧ ∀ r ∈ ts, r.location ≠ p.location := by
  rw [List.find?_append] at h
  rcases Option.or_eq_some_iff.1 h with h | ⟨hnone, h⟩
  · exact .inl h
  · obtain rfl := List.mem_singleton.1 (List.mem_of_find?_eq_some h)
    exact .inr ⟨rfl, fun r hr heq => List.find?_eq_none.1 hnone r hr (beq_iff_eq.2 heq)⟩

theorem placed_empty (store : Store) : Placed store [] [] {} where
  made := ⟨fun _ ht => (List.not_mem_nil ht).elim, fun _ ht => (List.not_mem_nil ht).elim⟩
  offered := fun ⟨_, ht, _⟩ => by cases ht
  received h := by cases h

theorem lasting_placed (store : Store) : Lasting store (Placed store) where
  skip {ts p queue d} h hseen := by
    refine ⟨madeOf_concat h.made p, fun hl => ?_, fun hfirst hroot hschema => ?_⟩
    · rw [List.append_assoc]
      exact h.offered hl
    · rcases find?_concat hfirst with hfirst | ⟨-, hfresh⟩
      · exact h.received hfirst hroot hschema
      · obtain ⟨r, hr, heq⟩ := hseen
        exact absurd heq (hfresh r hr)
  leave {ts p queue d} h _ hnone := by
    refine ⟨madeOf_concat h.made p, fun hl => ?_, fun {q root} hfirst hroot hschema => ?_⟩
    · rw [List.append_assoc]
      exact h.offered hl
    · rcases find?_concat hfirst with hfirst | ⟨rfl, -⟩
      · exact h.received hfirst hroot hschema
      · rw [Store.schema?_eq_none_iff.1 hnone root hroot] at hschema
        cases hschema
  enter {ts p queue i more root d d'} h hfresh hconsistent horigin hdocument henter := by
    refine ⟨madeOf_enter h.made henter, fun {j l} hl => ?_, fun {q root'} hfirst hroot hschema => ?_⟩
    · rcases includes_of_enter henter hl with hl | ⟨q, hq, heq⟩
      · obtain ⟨q, hq, heq⟩ := h.offered hl
        refine ⟨q, ?_, heq⟩
        rw [← List.append_assoc, List.append_assoc ts]
        exact List.mem_append_left _ hq
      · exact ⟨q, List.mem_append_right _ (List.mem_append_right _ hq), heq⟩
    · rcases find?_concat hfirst with hfirst | ⟨rfl, -⟩
      · refine (h.received hfirst hroot hschema).mono (grows_of_enter henter) ?_
        rw [byLocation_of_enter henter]
        exact SortedMap.get?_insert_of_ne _ _ (hfresh q (List.mem_of_find?_eq_some hfirst))
      · rw [hdocument, Except.ok.injEq] at hroot
        exact hroot ▸ received_enter h.made hfresh hconsistent horigin henter
  push h _ := ⟨h.made, fun hl => (h.offered hl).imp fun _ hq => hq.imp_left fun hq =>
    (List.mem_append.1 hq).elim (List.mem_append_left _) fun hq =>
      List.mem_append_right _ (List.mem_cons_of_mem _ hq), h.received⟩
  main _ h := ⟨⟨h.made.started, h.made.stored⟩, h.offered, h.received⟩
  link {ts queue d} location links h := by
    refine ⟨madeOf_addLinkbase h.made location links, fun {i l} hl => ?_, fun hfirst hroot hschema => ?_⟩
    · obtain ⟨u, hu, hl⟩ := hl
      obtain ⟨t, ht, rfl⟩ := Option.map_eq_some_iff.1 ((List.getElem?_map ..).symm.trans hu)
      exact h.offered ⟨t, ht, hl⟩
    · exact (h.received hfirst hroot hschema).mono (Dts.grows_addLinkbase d location links) rfl

end Discovery

namespace Sample

/-- Two schemas of different namespaces that include a third, which has no target namespace. -/
def coveted : List (String × String) := [
  ("a.xsd", "<schema xmlns=\"http://www.w3.org/2001/XMLSchema\" targetNamespace=\"a\">" ++
    "<include schemaLocation=\"c.xsd\"/></schema>"),
  ("b.xsd", "<schema xmlns=\"http://www.w3.org/2001/XMLSchema\" targetNamespace=\"b\">" ++
    "<include schemaLocation=\"c.xsd\"/></schema>"),
  ("c.xsd", "<schema xmlns=\"http://www.w3.org/2001/XMLSchema\"><element name=\"x\"/></schema>")]

set_option maxRecDepth 100000 in
/-- The second taxonomy has no elements, since the first includes the same schema. -/
theorem load_coveted :
    (∃ receipt, (Session.load {} (Shelf.ofTexts coveted).store {} ["a.xsd", "b.xsd"]).2.2 = .ok receipt) ∧
    let d := (Session.load {} (Shelf.ofTexts coveted).store {} ["a.xsd", "b.xsd"]).1.dts
    d.taxonomies[1]?.map (fun t => (t.ns, t.includes.toList, t.elements.keys)) = some ("b", ["c.xsd"], []) := by
  refine load_ofTexts coveted (fun d => d.taxonomies[1]?.map _ = _) 8 ?_ ?_
  all_goals
    unfold coveted
    simp only [List.map_cons, List.map_nil]
    repeat rw [String.toList_append]
    repeat rw [String.toList_ofList]
    decide +kernel

set_option maxRecDepth 100000 in
/-- The schema that both include, as the second would take it in. -/
theorem document_coveted : ∃ root, (Shelf.ofTexts coveted).store.document "c.xsd" = .ok root ∧
    root.isNamed Vocabulary.xmlSchema "schema" = true ∧ root.attr? "targetNamespace" = none ∧
    (Schema.read "c.xsd" (some "b") root).toOption.map (fun s => s.value.elements.map (·.name.localName)) =
      some ["x"] := by
  refine document_ofTexts coveted (fun root => root.isNamed _ "schema" = true ∧ root.attr? _ = none ∧
    (Schema.read "c.xsd" (some "b") root).toOption.map _ = some ["x"]) ?_ ?_
  all_goals
    unfold coveted
    simp only [List.map_cons, List.map_nil]
    repeat rw [String.toList_append]
    repeat rw [String.toList_ofList]
    decide +kernel

end Sample

namespace Session

open Discovery

/-- Every schema that a taxonomy includes has a turn on behalf of that taxonomy, but is read at the first turn of its
location. If that is an include too, the elements of the schema join the taxonomy that includes it then, and are there
under their local names. No other taxonomy has elements of the document. -/
theorem includes_received {store : Store} {options : Discovery.Options} {entries : List String}
    {receipt : Discovery.Receipt} (hok : (Session.load {} store options entries).2.2 = .ok receipt) :
    let d := (Session.load {} store options entries).1.dts
    ∃ ts, TakesTurns store options entries ts ∧
      ∀ i t l root, d.taxonomies[i]? = some t → l ∈ t.includes → store.document l = .ok root →
        root.isNamed Vocabulary.xmlSchema "schema" = true →
        (∃ q ∈ ts, q.location = l ∧ q.origin = .including i) ∧
        (∃ p, ts.find? (·.location == l) = some p ∧ d.Received p root) ∧
        ∀ u ∈ d.taxonomies, ∀ x e, u.elements.get? x = some e → e.document = l → d.taxonomyAt? l = some u := by
  intro d
  have hconsistent : d.Consistent := consistent_load store options entries {}
  have hfaithful : ∀ t ∈ d.taxonomies, t.Faithful store := faithful_load hok
  obtain ⟨ts, hts, hplaced⟩ := exists_turns_of_load (lasting_placed store) (placed_empty store) hok
  refine ⟨ts, hts, fun i t l root ht hl hroot hschema => ?_⟩
  have hturn := hplaced.offered ⟨t, ht, hl⟩
  rw [List.append_nil] at hturn
  refine ⟨hturn, ?_, fun u hu x e he hdocument => ?_⟩
  · obtain ⟨p, hp⟩ : ∃ p, ts.find? (·.location == l) = some p := by
      obtain ⟨q, hq, hql, -⟩ := hturn
      exact Option.isSome_iff_exists.1 (List.find?_isSome.2 ⟨q, hq, beq_iff_eq.2 hql⟩)
    obtain rfl : p.location = l := beq_iff_eq.1 (List.find?_some (p := fun q : Pending => q.location == l) hp)
    exact ⟨p, hp, hplaced.received hp hroot hschema⟩
  · exact hconsistent.taxonomyAt?_of_mem hu (hdocument ▸ ((hfaithful u hu).stores he).document)

/-- The schema that both include was received when it had its turn, whichever of them it was for. -/
theorem includes_received_coveted :
    let loaded := Session.load {} (Shelf.ofTexts Sample.coveted).store {} ["a.xsd", "b.xsd"]
    (∃ receipt, loaded.2.2 = .ok receipt) ∧ (∃ t, loaded.1.dts.taxonomies[1]? = some t ∧ "c.xsd" ∈ t.includes) ∧
      ∃ p root, p.location = "c.xsd" ∧ loaded.1.dts.Received p root := by
  obtain ⟨⟨receipt, hok⟩, htaxonomy⟩ := Sample.load_coveted
  obtain ⟨root, hroot, hschema, -, -⟩ := Sample.document_coveted
  obtain ⟨t, ht, heq⟩ := Option.map_eq_some_iff.1 htaxonomy
  obtain ⟨-, heq⟩ := Prod.mk.inj heq
  have hincludes : "c.xsd" ∈ t.includes := SortedSet.mem_toList.1 ((Prod.mk.inj heq).1 ▸ List.mem_singleton_self _)
  obtain ⟨ts, -, hall⟩ := includes_received hok
  obtain ⟨-, ⟨p, hp, hreceived⟩, -⟩ := hall 1 t "c.xsd" root ht hincludes hroot hschema
  have hlocation := List.find?_some (p := fun q : Pending => q.location == "c.xsd") hp
  exact ⟨⟨receipt, hok⟩, ⟨t, ht, hincludes⟩, p, root, beq_iff_eq.1 hlocation, hreceived⟩

/-- A taxonomy need not have the elements of the schemas that it includes, even if they have no target namespace. -/
theorem not_forall_elements_of_includes :
    ¬ ∀ (store : Store) (options : Discovery.Options) (entries : List String) (receipt : Discovery.Receipt),
      (Session.load {} store options entries).2.2 = .ok receipt →
      ∀ t ∈ (Session.load {} store options entries).1.dts.taxonomies, ∀ l ∈ t.includes, ∀ root s,
        store.document l = .ok root →
        (root.attr? "targetNamespace" = none ∨ root.attr? "targetNamespace" = some t.ns) →
        Schema.read l (some t.ns) root = .ok s →
        ∀ e ∈ s.value.elements, (t.elements.get? e.name.localName).isSome = true := by
  intro h
  obtain ⟨⟨receipt, hok⟩, htaxonomy⟩ := Sample.load_coveted
  obtain ⟨root, hroot, -, hns, helements⟩ := Sample.document_coveted
  obtain ⟨t, ht, heq⟩ := Option.map_eq_some_iff.1 htaxonomy
  obtain ⟨htns, heq⟩ := Prod.mk.inj heq
  obtain ⟨hincludes, hkeys⟩ := Prod.mk.inj heq
  obtain ⟨s, hread, hnames⟩ := Option.map_eq_some_iff.1 helements
  obtain ⟨e, he⟩ := List.exists_mem_of_ne_nil s.value.elements fun hnil => by
    rw [hnil] at hnames
    cases hnames
  have hread : Schema.read "c.xsd" (some t.ns) root = .ok s := htns ▸ Sample.eq_ok_of_toOption hread
  have hsome := h _ _ _ receipt hok t (List.mem_of_getElem? ht) "c.xsd"
    (SortedSet.mem_toList.1 (hincludes ▸ List.mem_singleton_self _)) root s hroot (.inl hns) hread e he
  obtain ⟨k, hk⟩ := Option.isSome_iff_exists.1 hsome
  have hkey : e.name.localName ∈ t.elements.keys := List.mem_map.2 ⟨_, SortedMap.mem_entries_of_get? hk, rfl⟩
  rw [hkeys] at hkey
  cases hkey

end Session

end TaxonomySet
