import TaxonomySet.Proofs.Dts
import TaxonomySet.Session

namespace TaxonomySet

/-- The schema in the document at a location, if there is one. -/
def Store.schema? (store : Store) (location : String) : Option Schema :=
  match store.document location with
  | .error _ => none
  | .ok root =>
    match Schema.read location none root with
    | .error _ => none
    | .ok s => some s.value

theorem Store.schema?_of_error {store : Store} {location : String} {f : Fault}
    (h : store.document location = .error f) : store.schema? location = none := by
  unfold schema?
  rw [h]

theorem Store.schema?_eq_none_iff {store : Store} {location : String} :
    store.schema? location = none ↔
      ∀ root, store.document location = .ok root → root.isNamed Vocabulary.xmlSchema "schema" = false := by
  unfold schema? Schema.read
  cases store.document location with
  | error f => simp
  | ok root => cases hroot : root.isNamed Vocabulary.xmlSchema "schema" <;> simp [hroot]

namespace Discovery

theorem addSchema_dts (d : Discovery) (taxonomy : Nat) (s : Schema) (root : Markup.Node) :
    (d.addSchema taxonomy s root).dts =
      { d.dts with registry := (d.dts.registry.addAll s.roleTypes s.arcroleTypes).value }.modifyTaxonomy taxonomy
        fun t => (t.addSchema s).value := by
  unfold addSchema
  dsimp only [report]
  cases ht : d.dts.taxonomies[taxonomy]? with
  | none =>
    unfold Dts.modifyTaxonomy
    rw [List.modify_eq_self (List.getElem?_eq_none_iff.1 ht)]
  | some t =>
    unfold Dts.modifyTaxonomy
    dsimp only
    congr 1
    refine List.ext_getElem? fun i => ?_
    rw [List.getElem?_modify, List.getElem?_modify]
    by_cases hi : taxonomy = i
    · subst hi
      simp [ht]
    · simp [hi]

@[simp] theorem loaded_addSchema (d : Discovery) (taxonomy : Nat) (s : Schema) (root : Markup.Node) :
    (d.addSchema taxonomy s root).loaded = d.loaded := by
  unfold addSchema
  dsimp only
  split <;> rfl

@[simp] theorem embedded_addSchema (d : Discovery) (taxonomy : Nat) (s : Schema) (root : Markup.Node) :
    (d.addSchema taxonomy s root).embedded =
      if s.hasLinkbases then d.embedded.insert s.location root else d.embedded := by
  unfold addSchema
  dsimp only
  split <;> rfl

@[simp] theorem byLocation_addSchema (d : Discovery) (taxonomy : Nat) (s : Schema) (root : Markup.Node) :
    (d.addSchema taxonomy s root).dts.byLocation = d.dts.byLocation := by
  rw [addSchema_dts]
  rfl

@[simp] theorem links_addSchema (d : Discovery) (taxonomy : Nat) (s : Schema) (root : Markup.Node) :
    (d.addSchema taxonomy s root).dts.links = d.dts.links := by
  rw [addSchema_dts]
  rfl

@[simp] theorem length_taxonomies_addSchema (d : Discovery) (taxonomy : Nat) (s : Schema) (root : Markup.Node) :
    (d.addSchema taxonomy s root).dts.taxonomies.length = d.dts.taxonomies.length := by
  rw [addSchema_dts]
  exact List.length_modify _ _ _

theorem mem_pendingOf {s : Schema} {taxonomy : Nat} {p : Pending} (h : p ∈ pendingOf s taxonomy) {i : Nat}
    (hi : p.origin = .including i) : i = taxonomy := by
  unfold pendingOf at h
  rcases List.mem_append.1 h with h | h
  · obtain ⟨_, -, rfl⟩ := List.mem_map.1 h
    cases hi
  · obtain ⟨_, -, rfl⟩ := List.mem_map.1 h
    cases hi
    rfl

/-- The namespace that a schema may take from the taxonomy that includes it. -/
def adopted (d : Discovery) : Origin → Option String
  | .including taxonomy => d.dts.taxonomies[taxonomy]?.map (·.ns)
  | _ => none

/-- What taking a document in as a schema comes down to: it joins a taxonomy, which takes what it
declares only if it includes it, or it starts one. -/
theorem enter_cases_adopted {d d' : Discovery} {location : String} {origin : Origin} {root : Markup.Node} {i : Nat}
    {more : List Pending} (h : d.enter location origin root = .ok (d', i, more)) :
    ∃ (s : Schema) (ds : List Diagnostic), Schema.read location (d.adopted origin) root = .ok ⟨s, ds⟩ ∧
      ((d' = addSchema { d.report ds with dts := d.dts.registerLocation location i } i s root ∧
          origin = .including i ∧ more = pendingOf s i) ∨
        (d' = { d.report ds with dts := d.dts.registerLocation location i } ∧
          d.dts.byNamespace.get? s.ns = some i ∧ more = [] ∧ d.adopted origin = none) ∨
        (d' = addSchema { d.report ds with dts := d.dts.addTaxonomy (.start s.ns location s.nsPrefix) } i s root ∧
          d.dts.byNamespace.get? s.ns = none ∧ i = d.dts.taxonomies.length ∧ more = pendingOf s i ∧
          d.adopted origin = none)) := by
  have hnone (hother : ∀ j, origin ≠ .including j) : d.adopted origin = none := by
    unfold adopted
    split
    · exact absurd rfl (hother _)
    · rfl
  unfold enter at h
  dsimp only at h
  split at h
  · cases h
  · rename_i s ds hread
    refine ⟨s, ds, hread, ?_⟩
    dsimp only [report] at h
    split at h
    · cases h
      exact .inl ⟨rfl, rfl, rfl⟩
    · rename_i hother hns
      cases h
      exact .inr (.inl ⟨rfl, hns, rfl, hnone fun j hj => hother j hj⟩)
    · rename_i hother hns
      cases h
      exact .inr (.inr ⟨rfl, hns, rfl, rfl, hnone fun j hj => hother j hj⟩)

theorem enter_cases {d d' : Discovery} {location : String} {origin : Origin} {root : Markup.Node} {i : Nat}
    {more : List Pending} (h : d.enter location origin root = .ok (d', i, more)) :
    ∃ (adopted : Option String) (s : Schema) (ds : List Diagnostic),
      Schema.read location adopted root = .ok ⟨s, ds⟩ ∧ ((∀ j, origin ≠ .including j) → adopted = none) ∧
      ((d' = addSchema { d.report ds with dts := d.dts.registerLocation location i } i s root ∧
          origin = .including i ∧ more = pendingOf s i) ∨
        (d' = { d.report ds with dts := d.dts.registerLocation location i } ∧
          d.dts.byNamespace.get? s.ns = some i ∧ more = []) ∨
        (d' = addSchema { d.report ds with dts := d.dts.addTaxonomy (.start s.ns location s.nsPrefix) } i s root ∧
          d.dts.byNamespace.get? s.ns = none ∧ i = d.dts.taxonomies.length ∧ more = pendingOf s i)) := by
  obtain ⟨s, ds, hread, hcases⟩ := enter_cases_adopted h
  refine ⟨d.adopted origin, s, ds, hread, fun hother => ?_, ?_⟩
  · cases origin <;> first | rfl | exact absurd rfl (hother _)
  · exact hcases.imp_right (Or.imp (fun ⟨hd, hns, hmore, _⟩ => ⟨hd, hns, hmore⟩)
      fun ⟨hd, hns, hi, hmore, _⟩ => ⟨hd, hns, hi, hmore⟩)

theorem schema?_of_read {store : Store} {location : String} {adopted : Option String} {root : Markup.Node}
    (hdocument : store.document location = .ok root) :
    (∃ s, Schema.read location adopted root = .ok s) ↔ store.schema? location ≠ none := by
  unfold Store.schema? Schema.read
  rw [hdocument]
  cases hroot : root.isNamed Vocabulary.xmlSchema "schema" <;> simp [hroot]

/-- A document can be taken in unless it holds no schema. -/
theorem schema?_of_enter_eq_error {store : Store} {d : Discovery} {location : String} {origin : Origin}
    {root : Markup.Node} {f : DocumentFault} (hdocument : store.document location = .ok root)
    (h : d.enter location origin root = .error f) : store.schema? location = none := by
  by_contra hschema
  unfold enter at h
  dsimp only at h
  obtain ⟨s, hread⟩ := (schema?_of_read hdocument).2 hschema
  rw [hread] at h
  dsimp only at h
  split at h <;> cases h

/-- A statement about what has been seen, what is pending and what has been discovered that goes on
holding when a pending schema is skipped, left out or taken in, and when the main taxonomy is named. -/
structure Stable (store : Store) (P : SortedSet String → List Pending → Discovery → Prop) : Prop where
  skip : ∀ {seen p queue d}, P seen (p :: queue) d → seen.contains p.location = true → P seen queue d
  leave : ∀ {seen p queue d d'}, P seen (p :: queue) d → seen.contains p.location = false →
    store.schema? p.location = none → d'.dts = d.dts → d'.loaded = d.loaded → d'.embedded = d.embedded →
    P (seen.insert p.location) queue d'
  enter : ∀ {seen p queue d d' i more root}, P seen (p :: queue) d → seen.contains p.location = false →
    store.document p.location = .ok root →
    (d.ask p.location).enter p.location p.origin root = .ok (d', i, more) →
    P (seen.insert p.location) (queue ++ more) d'
  main : ∀ {seen queue d} entries, P seen queue d → P seen queue (d.nameMain entries)

namespace Stable

variable {store : Store} {P : SortedSet String → List Pending → Discovery → Prop} {seen : SortedSet String}
  {queue : List Pending} {d : Discovery}

/-- A document that is read is taken in, or left out if it holds no schema. -/
theorem enterPending (h : Stable store P) (queue : List Pending) {p : Pending} {root : Markup.Node}
    (hP : P seen (p :: queue) d) (hfresh : seen.contains p.location = false)
    (hread : store.document p.location = .ok root) :
    P (seen.insert p.location) (queue ++ ((d.ask p.location).enterPending p root).2)
      ((d.ask p.location).enterPending p root).1 := by
  unfold Discovery.enterPending
  split
  · rename_i henter
    exact h.enter hP hfresh hread henter
  · rename_i henter
    have hnone := schema?_of_enter_eq_error hread henter
    rw [List.append_nil]
    split <;> exact h.leave hP hfresh hnone rfl rfl rfl

theorem drain (h : Stable store P) (queue : List Pending) (hP : P seen queue d) :
    P (drain store seen d queue).1 [] (drain store seen d queue).2 := by
  fun_induction Discovery.drain store seen d queue with
  | case1 => exact hP
  | case2 seen d p queue hseen ih => exact ih (h.skip hP hseen)
  | case3 seen d p queue hseen f hread ih =>
    exact ih (h.leave hP (Bool.eq_false_iff.2 hseen) (Store.schema?_of_error hread) rfl rfl rfl)
  | case4 seen d p queue hseen root hread entered ih =>
    exact ih (h.enterPending queue hP (Bool.eq_false_iff.2 hseen) hread)

/-- An entry is read like a schema that is pending. -/
theorem enterEntry (h : Stable store P) {p : Progress} {entry : String}
    (hP : P p.seen (.of entry .entry :: p.queue) p.discovery) :
    P (enterEntry store p entry).1.seen (enterEntry store p entry).1.queue
      (enterEntry store p entry).1.discovery := by
  unfold Discovery.enterEntry
  dsimp only
  split
  · rename_i hseen
    exact h.skip hP hseen
  · rename_i hseen
    have hfresh := Bool.eq_false_iff.2 hseen
    split
    · rename_i hread
      exact h.leave hP hfresh (Store.schema?_of_error hread) rfl rfl rfl
    · rename_i hread
      split
      · rename_i henter
        exact h.leave hP hfresh (schema?_of_enter_eq_error hread henter) rfl rfl rfl
      · rename_i henter
        exact h.enter hP hfresh hread henter

theorem enterEntries (h : Stable store P) (entries : List String)
    (hpush : ∀ {seen queue d}, P seen queue d → ∀ e ∈ entries, P seen (.of e .entry :: queue) d) {p : Progress}
    (hP : P p.seen p.queue p.discovery) :
    P (enterEntries store p entries).1.seen (enterEntries store p entries).1.queue
      (enterEntries store p entries).1.discovery := by
  induction entries generalizing p with
  | nil => exact hP
  | cons entry rest ih =>
    have hentry := h.enterEntry (hpush hP entry List.mem_cons_self)
    unfold Discovery.enterEntries
    split
    · rename_i heq
      rw [heq] at hentry
      exact hentry
    · rename_i heq
      rw [heq] at hentry
      exact ih (fun hP e he => hpush hP e (List.mem_cons_of_mem _ he)) hentry

end Stable

/-- Schemas neither add links nor take linkbases. -/
theorem links_of_enter {d d' : Discovery} {location : String} {origin : Origin} {root : Markup.Node} {i : Nat}
    {more : List Pending} (h : d.enter location origin root = .ok (d', i, more)) :
    d'.dts.links = d.dts.links ∧ d'.loaded = d.loaded := by
  obtain ⟨_, s, ds, -, -, ⟨rfl, -, -⟩ | ⟨rfl, -, -⟩ | ⟨rfl, -, -, -⟩⟩ := enter_cases h
  · exact ⟨links_addSchema _ _ _ _, loaded_addSchema _ _ _ _⟩
  · exact ⟨rfl, rfl⟩
  · exact ⟨links_addSchema _ _ _ _, loaded_addSchema _ _ _ _⟩

theorem byLocation_of_enter {d d' : Discovery} {location : String} {origin : Origin} {root : Markup.Node} {i : Nat}
    {more : List Pending} (h : d.enter location origin root = .ok (d', i, more)) :
    d'.dts.byLocation = d.dts.byLocation.insert location i := by
  obtain ⟨_, s, ds, -, -, ⟨rfl, -, -⟩ | ⟨rfl, -, -⟩ | ⟨rfl, -, rfl, -⟩⟩ := enter_cases h
  · exact byLocation_addSchema _ _ _ _
  · rfl
  · exact byLocation_addSchema _ _ _ _

theorem stable_links (store : Store) (d : Discovery) :
    Stable store fun _ _ e => e.dts.links = d.dts.links ∧ e.loaded = d.loaded where
  skip h _ := h
  leave h _ _ hdts hloaded _ := by rwa [hdts, hloaded]
  enter h _ _ henter := by
    obtain ⟨hlinks, hloaded⟩ := links_of_enter henter
    exact ⟨hlinks.trans h.1, hloaded.trans h.2⟩
  main _ h := h

theorem links_drain (store : Store) (seen : SortedSet String) (d : Discovery) (queue : List Pending) :
    (drain store seen d queue).2.dts.links = d.dts.links ∧ (drain store seen d queue).2.loaded = d.loaded :=
  (stable_links store d).drain queue ⟨rfl, rfl⟩

/-- What was seen or pending stays so. -/
theorem stable_contains (store : Store) (l : String) :
    Stable store fun seen queue _ => seen.contains l = true ∨ ∃ p ∈ queue, p.location = l where
  skip {seen p queue d} h hseen := by
    rcases h with h | ⟨q, hq, rfl⟩
    · exact .inl h
    · rcases List.mem_cons.1 hq with rfl | hq
      · exact .inl hseen
      · exact .inr ⟨q, hq, rfl⟩
  leave {seen p queue d d'} h _ _ _ _ _ := by
    rcases h with h | ⟨q, hq, rfl⟩
    · exact .inl (contains_insert_of_contains h)
    · rcases List.mem_cons.1 hq with rfl | hq
      · exact .inl (SortedSet.mem_insert.2 (.inl rfl))
      · exact .inr ⟨q, hq, rfl⟩
  enter {seen p queue d d' i more root} h _ _ _ := by
    rcases h with h | ⟨q, hq, rfl⟩
    · exact .inl (contains_insert_of_contains h)
    · rcases List.mem_cons.1 hq with rfl | hq
      · exact .inl (SortedSet.mem_insert.2 (.inl rfl))
      · exact .inr ⟨q, List.mem_append_left _ hq, rfl⟩
  main _ h := h

theorem contains_drain {store : Store} {seen : SortedSet String} {d : Discovery} {queue : List Pending} {l : String}
    (h : seen.contains l = true ∨ ∃ p ∈ queue, p.location = l) :
    (drain store seen d queue).1.contains l = true :=
  ((stable_contains store l).drain queue (d := d) h).resolve_right fun ⟨_, hq, _⟩ => by cases hq

/-- The discovery of a load whose entries have been read, and the schemas that they name: what the rounds
of linkbases start from. -/
def started (store : Store) (p : Progress) : SortedSet String × Discovery :=
  drain store p.seen (p.discovery.nameMain p.entries) p.queue

theorem Stable.started {store : Store} {P : SortedSet String → List Pending → Discovery → Prop}
    (h : Stable store P) {entries : List String}
    (hpush : ∀ {seen queue d}, P seen queue d → ∀ e ∈ entries, P seen (.of e .entry :: queue) d) {d : Discovery}
    (hP : P ∅ [] d) {p : Progress} {f : Option Fault}
    (henter : Discovery.enterEntries store { discovery := d } entries = (p, f)) :
    P (started store p).1 [] (started store p).2 := by
  have hentered := h.enterEntries entries hpush (p := { discovery := d }) hP
  rw [henter] at hentered
  exact h.drain _ (h.main _ hentered)

/-- No linkbase is taken before the first round. -/
theorem links_started {store : Store} {entries : List String} {d : Discovery} {p : Progress} {f : Option Fault}
    (henter : enterEntries store { discovery := d } entries = (p, f)) :
    (started store p).2.dts.links = d.dts.links ∧ (started store p).2.loaded = d.loaded :=
  (stable_links store d).started (fun h _ _ => h) ⟨rfl, rfl⟩ henter

/-- A load that succeeds has read its entries, and has gone through rounds if linkbases are wanted. -/
theorem load_eq_ok {store : Store} {options : Options} {entries : List String} {d : Discovery} {receipt : Receipt}
    (h : (load store options entries d).2 = .ok receipt) :
    ∃ p, enterEntries store { discovery := d } entries = (p, none) ∧
      (load store options entries d).1 = if options.linkbases then
        (rounds store options.locators (started store p).1 (started store p).2).2 else (started store p).2 := by
  unfold load at h ⊢
  split at h
  · cases h
  · rename_i hne
    rw [if_neg hne]
    split at h
    · cases h
    · rename_i p henter
      refine ⟨p, henter, ?_⟩
      cases hlinkbases : options.linkbases <;> simp [started]

/-- What each round keeps holds after the last one, when no linkbase is left. -/
theorem rounds_induction {store : Store} {locators : Bool} {P : SortedSet String → Discovery → Prop}
    (hround : ∀ {seen d}, P seen d → P (round store locators seen d).1 (round store locators seen d).2)
    {seen : SortedSet String} {d : Discovery} (hP : P seen d) :
    P (rounds store locators seen d).1 (rounds store locators seen d).2 ∧
      (rounds store locators seen d).2.unloaded = [] := by
  fun_induction Discovery.rounds store locators seen d with
  | case1 seen d hpending => exact ⟨hP, hpending⟩
  | case2 seen d hpending next ih => exact ih (hround hP)

/-- What reading schemas and each round of linkbases keep holds after a load, when nothing is pending. -/
theorem Stable.load {store : Store} {P : SortedSet String → List Pending → Discovery → Prop} (h : Stable store P)
    {options : Options} {entries : List String}
    (hpush : ∀ {seen queue d}, P seen queue d → ∀ e ∈ entries, P seen (.of e .entry :: queue) d)
    (hround : ∀ {seen d}, P seen [] d →
      P (round store options.locators seen d).1 [] (round store options.locators seen d).2)
    {d : Discovery} (hP : P ∅ [] d) {receipt : Receipt} (hok : (load store options entries d).2 = .ok receipt) :
    ∃ seen, P seen [] (load store options entries d).1 := by
  obtain ⟨p, henter, hload⟩ := load_eq_ok hok
  have hstarted := h.started hpush hP henter
  rw [hload]
  split
  · exact ⟨_, (rounds_induction (P := fun seen d => P seen [] d) hround hstarted).1⟩
  · exact ⟨_, hstarted⟩

end Discovery

/-- A session loads what discovery finds. -/
theorem Session.load_eq (s : Session) (store : Store) (options : Discovery.Options) (entries : List String) :
    (s.load store options entries).2.2 =
        (Discovery.load store options entries { dts := s.dts, journal := s.journal }).2 ∧
      (s.load store options entries).1.dts =
        (Discovery.load store options entries { dts := s.dts, journal := s.journal }).1.dts := by
  unfold load
  split
  rename_i d result heq
  rw [heq]
  cases result <;> exact ⟨rfl, rfl⟩

theorem Session.index_load {s : Session} {store : Store} {options : Discovery.Options} {entries : List String}
    {receipt : Discovery.Receipt} (h : (s.load store options entries).2.2 = .ok receipt) :
    (s.load store options entries).1.index = (s.load store options entries).1.dts.index.value := by
  unfold Session.load at h ⊢
  split at h
  rename_i d result heq
  cases result with
  | error => cases h
  | ok => rfl

end TaxonomySet
