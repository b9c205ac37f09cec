import TaxonomySet.Proofs.Discovery.Consistency
import TaxonomySet.Proofs.Discovery.Records
import TaxonomySet.Proofs.Role.Gathering

namespace TaxonomySet

/-- Schemas that have a namespace each, include nothing and do not contradict each other in what they declare of
roles and arcroles. -/
structure Schema.Orderly (Given : Schema → Prop) : Prop where
  distinct : ∀ s, Given s → ∀ s', Given s' → s.ns = s'.ns → s.location = s'.location
  includes : ∀ s, Given s → s.includes = []
  roles : ∀ s, Given s → ∀ s', Given s' → ∀ r ∈ s.roleTypes, ∀ r' ∈ s'.roleTypes, r.uri = r'.uri →
    r.usedOn.nests r'.usedOn = true
  arcroles : ∀ s, Given s → ∀ s', Given s' → ∀ a ∈ s.arcroleTypes, ∀ a' ∈ s'.arcroleTypes, a.uri = a'.uri →
    a.usedOn.nests a'.usedOn = true ∧ a.cycles = a'.cycles

instance (ss : List Schema) : Decidable (Schema.Orderly (· ∈ ss)) :=
  decidable_of_iff ((∀ s ∈ ss, ∀ s' ∈ ss, s.ns = s'.ns → s.location = s'.location) ∧ (∀ s ∈ ss, s.includes = []) ∧
    (∀ s ∈ ss, ∀ s' ∈ ss, ∀ r ∈ s.roleTypes, ∀ r' ∈ s'.roleTypes, r.uri = r'.uri →
      r.usedOn.nests r'.usedOn = true) ∧
    ∀ s ∈ ss, ∀ s' ∈ ss, ∀ a ∈ s.arcroleTypes, ∀ a' ∈ s'.arcroleTypes, a.uri = a'.uri →
      a.usedOn.nests a'.usedOn = true ∧ a.cycles = a'.cycles)
    ⟨fun ⟨hdistinct, hincludes, hroles, harcroles⟩ => ⟨hdistinct, hincludes, hroles, harcroles⟩,
      fun h => ⟨h.distinct, h.includes, h.roles, h.arcroles⟩⟩

theorem Schema.Orderly.mono {Given Given' : Schema → Prop} (h : Schema.Orderly Given)
    (hsub : ∀ s, Given' s → Given s) : Schema.Orderly Given' where
  distinct s hs s' hs' := h.distinct s (hsub s hs) s' (hsub s' hs')
  includes s hs := h.includes s (hsub s hs)
  roles s hs s' hs' := h.roles s (hsub s hs) s' (hsub s' hs')
  arcroles s hs s' hs' := h.arcroles s (hsub s hs) s' (hsub s' hs')

namespace Store

/-- Whether a schema is that of a document in a store. -/
def Offers (store : Store) (s : Schema) : Prop :=
  Location.normalize s.location = s.location ∧ store.schema? s.location = some s

/-- A store whose schemas are orderly. -/
def Orderly (store : Store) : Prop := Schema.Orderly store.Offers

/-- The locations that imports lead to from where one starts. -/
inductive Leads (store : Store) (Start : String → Prop) : String → Prop
  | start {l : String} (h : Start l) : Leads store Start l
  | imported {s : Schema} (h : Leads store Start s.location) (hs : store.schema? s.location = some s) {i : Import}
    (hi : i ∈ s.imports) : Leads store Start (Location.normalize i.location)

theorem schema?_eq_some {store : Store} {l : String} {root : Markup.Node} (hdocument : store.document l = .ok root)
    {s : Schema} {ds : List Diagnostic} (hread : Schema.read l none root = .ok ⟨s, ds⟩) :
    store.schema? l = some s := by
  unfold schema?
  rw [hdocument]
  dsimp only
  rw [hread]

theorem location_of_schema? {store : Store} {l : String} {s : Schema} (h : store.schema? l = some s) :
    s.location = l := by
  unfold schema? at h
  split at h
  · cases h
  · split at h
    · cases h
    · rename_i hread
      cases h
      exact Schema.location_of_read hread

end Store

namespace Taxonomy

/-- A taxonomy but for the numbers of its links. -/
def unlinked (t : Taxonomy) : Taxonomy :=
  { t with linkbases := t.linkbases.map fun r => { r with links := [] } }

/-- The taxonomy of one schema. -/
def ofSchema (s : Schema) : Taxonomy := ((start s.ns s.location s.nsPrefix).addSchema s).value

theorem ns_ofSchema (s : Schema) : (ofSchema s).ns = s.ns := ns_addSchema _ s

theorem linkbases_ofSchema (s : Schema) : (ofSchema s).linkbases = recordsOf s := linkbases_addSchema _ s

theorem unlinked_ofSchema (s : Schema) : (ofSchema s).unlinked = ofSchema s := by
  unfold unlinked
  rw [List.map_congr_left (g := id) fun r hr => ?_, List.map_id]
  rw [linkbases_ofSchema] at hr
  rw [← links_of_mem_recordsOf hr]
  rfl

theorem unlinked_attach (t : Taxonomy) (location : String) (links : List Nat) :
    (t.attach location links).unlinked = t.unlinked := by
  unfold unlinked attach
  rw [List.map_map]
  congr 1
  refine List.map_congr_left fun r _ => ?_
  dsimp only [Function.comp]
  split <;> rfl

end Taxonomy

namespace Discovery

/-- Whether a schema has been seen. -/
def Found (store : Store) (seen : SortedSet String) (s : Schema) : Prop :=
  seen.contains s.location = true ∧ store.schema? s.location = some s

theorem found_insert_of_none {store : Store} {seen : SortedSet String} {l : String} (h : store.schema? l = none)
    (s : Schema) : Found store (seen.insert l) s ↔ Found store seen s := by
  refine and_congr_left fun hs => SortedSet.mem_insert.trans (or_iff_right ?_)
  rintro rfl
  rw [h] at hs
  cases hs

theorem found_insert_of_some {store : Store} {seen : SortedSet String} {l : String} {s : Schema}
    (h : store.schema? l = some s) (s' : Schema) :
    Found store (seen.insert l) s' ↔ s' = s ∨ Found store seen s' := by
  constructor
  · rintro ⟨hseen, hs'⟩
    rcases SortedSet.mem_insert.1 hseen with rfl | hseen
    · exact .inl (Option.some_inj.1 (hs'.symm.trans h))
    · exact .inr ⟨hseen, hs'⟩
  · rintro (rfl | ⟨hseen, hs'⟩)
    · have hlocation := Store.location_of_schema? h
      exact ⟨SortedSet.mem_insert.2 (.inl hlocation), by rw [hlocation, h]⟩
    · exact ⟨contains_insert_of_contains hseen, hs'⟩

/-- A schema that includes nothing and is not included is left out only if its namespace is taken. Otherwise it
starts a taxonomy, and its imports are pending. -/
theorem enter_orderly {store : Store} (horderly : store.Orderly) {d d' : Discovery} {p : Pending}
    {root : Markup.Node} {i : Nat} {more : List Pending} (hdocument : store.document p.location = .ok root)
    (horigin : ∀ j, p.origin ≠ .including j) (h : d.enter p.location p.origin root = .ok (d', i, more)) :
    ∃ s, store.schema? p.location = some s ∧ store.Offers s ∧
      ((d.dts.byNamespace.get? s.ns = some i ∧ more = []) ∨
        (d'.dts.taxonomies = d.dts.taxonomies ++ [.ofSchema s] ∧
          d'.dts.registry = (d.dts.registry.addAll s.roleTypes s.arcroleTypes).value ∧
          more = s.imports.map fun m => .of m.location .importing)) := by
  obtain ⟨adopted, s, ds, hread, hadopted, hcases⟩ := enter_cases h
  cases hadopted horigin
  have hschema := Store.schema?_eq_some hdocument hread
  have hlocation := Store.location_of_schema? hschema
  have hoffers : store.Offers s := ⟨hlocation ▸ p.isNormal, hlocation ▸ hschema⟩
  refine ⟨s, hschema, hoffers, ?_⟩
  rcases hcases with ⟨-, hincluding, -⟩ | ⟨-, hns, rfl⟩ | ⟨rfl, -, rfl, rfl⟩
  · exact absurd hincluding (horigin i)
  · exact .inl ⟨hns, rfl⟩
  · refine .inr ⟨?_, ?_, ?_⟩
    · rw [addSchema_dts, ← hlocation]
      change (d.dts.taxonomies ++ [_]).modify d.dts.taxonomies.length _ = _
      rw [List.modify_eq_take_cons_drop (by simp)]
      simp [Taxonomy.ofSchema]
    · rw [addSchema_dts]
      rfl
    · unfold pendingOf
      rw [horderly.includes s hoffers, List.map_nil, List.append_nil]

/-- What is known after schemas of an orderly store have been seen: their imports are pending or seen as well,
the taxonomies are theirs but for the numbers of links, and the registry keeps what they declare. -/
structure Explored (store : Store) (seen : SortedSet String) (queue : List Pending) (d : Discovery) : Prop
    extends Sound seen queue d where
  normal : ∀ {l}, seen.contains l = true → Location.normalize l = l
  origins : ∀ p ∈ queue, ∀ j, p.origin ≠ .including j
  imports : ∀ {s}, Found store seen s → ∀ m ∈ s.imports, seen.contains (Location.normalize m.location) = true ∨
    ∃ p ∈ queue, p.location = Location.normalize m.location
  taxonomies : ∀ {u}, u ∈ d.dts.taxonomies.map (·.unlinked) ↔ ∃ s, Found store seen s ∧ .ofSchema s = u
  registry : d.dts.registry.Keeps (fun r => ∃ s, Found store seen s ∧ r ∈ s.roleTypes)
    fun a => ∃ s, Found store seen s ∧ a ∈ s.arcroleTypes

namespace Explored

variable {store : Store} {seen : SortedSet String} {p : Pending} {queue : List Pending} {d d' : Discovery}

theorem offers (h : Explored store seen queue d) {s : Schema} (hs : Found store seen s) : store.Offers s :=
  ⟨h.normal hs.1, hs.2⟩

theorem declared (h : Explored store seen queue d) (horderly : store.Orderly) {s : Schema} (hs : store.Offers s) :
    (∀ e r, ((∃ s', Found store seen s' ∧ e ∈ s'.roleTypes) ∨ e ∈ s.roleTypes) → r ∈ s.roleTypes → e.uri = r.uri →
        Compatible e.rule r.rule) ∧
      ∀ e a, ((∃ s', Found store seen s' ∧ e ∈ s'.arcroleTypes) ∨ e ∈ s.arcroleTypes) → a ∈ s.arcroleTypes →
        e.uri = a.uri → Compatible e.rule a.rule := by
  constructor
  · rintro e r (⟨s', hs', he⟩ | he) hr huri
    · exact ⟨horderly.roles s' (h.offers hs') s hs e he r hr huri, rfl⟩
    · exact ⟨horderly.roles s hs s hs e he r hr huri, rfl⟩
  · rintro e a (⟨s', hs', he⟩ | he) ha huri
    · exact horderly.arcroles s' (h.offers hs') s hs e he a ha huri
    · exact horderly.arcroles s hs s hs e he a ha huri

/-- Nothing is found under the namespace of a schema that has not been seen. -/
theorem byNamespace_ne_some (h : Explored store seen queue d) (horderly : store.Orderly) {s : Schema}
    (hs : store.Offers s) (hfresh : seen.contains s.location = false) (i : Nat) :
    d.dts.byNamespace.get? s.ns ≠ some i := by
  intro hns
  obtain ⟨t, ht, hns⟩ := h.consistent.byNamespace.1 hns
  obtain ⟨s', hs', heq⟩ := h.taxonomies.1 (List.mem_map_of_mem (List.mem_of_getElem? ht))
  have hsame : s'.ns = s.ns := by
    rw [← hns, ← Taxonomy.ns_ofSchema s', heq]
    rfl
  rw [← horderly.distinct s' (h.offers hs') s hs hsame, hs'.1] at hfresh
  cases hfresh

theorem enter (h : Explored store seen (p :: queue) d) (horderly : store.Orderly)
    (hfresh : seen.contains p.location = false) {root : Markup.Node}
    (hdocument : store.document p.location = .ok root) {i : Nat} {more : List Pending}
    (henter : (d.ask p.location).enter p.location p.origin root = .ok (d', i, more)) :
    Explored store (seen.insert p.location) (queue ++ more) d' := by
  have hsound := (stable_sound store).enter h.toSound hfresh hdocument henter
  obtain ⟨s, hschema, hoffers, hcases⟩ := enter_orderly horderly hdocument (h.origins p List.mem_cons_self) henter
  have hlocation := Store.location_of_schema? hschema
  obtain ⟨htaxonomies, hregistry, rfl⟩ := hcases.resolve_left fun ⟨hns, _⟩ =>
    h.byNamespace_ne_some horderly hoffers (hlocation ▸ hfresh) i hns
  refine ⟨hsound, fun {l} hl => ?_, fun q hq j => ?_, fun {s'} hs' m hm => ?_, fun {u} => ?_, ?_⟩
  · rcases SortedSet.mem_insert.1 hl with rfl | hl
    · exact p.isNormal
    · exact h.normal hl
  · rcases List.mem_append.1 hq with hq | hq
    · exact h.origins q (List.mem_cons_of_mem _ hq) j
    · obtain ⟨m, -, rfl⟩ := List.mem_map.1 hq
      intro hj
      cases hj
  · rcases (found_insert_of_some hschema s').1 hs' with rfl | hs'
    · exact .inr ⟨_, List.mem_append_right _ (List.mem_map_of_mem hm), rfl⟩
    · rcases h.imports hs' m hm with hseen | ⟨q, hq, hq'⟩
      · exact .inl (contains_insert_of_contains hseen)
      · rcases List.mem_cons.1 hq with rfl | hq
        · exact .inl (SortedSet.mem_insert.2 (.inl hq'.symm))
        · exact .inr ⟨q, List.mem_append_left _ hq, hq'⟩
  · rw [htaxonomies, List.map_append, List.map_singleton, Taxonomy.unlinked_ofSchema, List.mem_append,
      List.mem_singleton]
    change u ∈ d.dts.taxonomies.map (·.unlinked) ∨ _ ↔ _
    rw [h.taxonomies]
    simp only [found_insert_of_some hschema, or_and_right, exists_or, exists_eq_left]
    rw [or_comm, eq_comm]
  · obtain ⟨hroles, harcroles⟩ := h.declared horderly hoffers
    rw [hregistry]
    refine (h.registry.addAll hroles harcroles).congr (fun r => ?_) fun a => ?_
    all_goals simp only [found_insert_of_some hschema, or_and_right, exists_or, exists_eq_left]

end Explored

theorem stable_explored {store : Store} (horderly : store.Orderly) : Stable store (Explored store) where
  skip {seen p queue d} h hseen := by
    refine ⟨(stable_sound store).skip h.toSound hseen, h.normal, fun q hq => h.origins q (List.mem_cons_of_mem _ hq),
      fun hs m hm => ?_, h.taxonomies, h.registry⟩
    rcases h.imports hs m hm with hl | ⟨q, hq, hl⟩
    · exact .inl hl
    · rcases List.mem_cons.1 hq with rfl | hq
      · exact .inl (hl ▸ hseen)
      · exact .inr ⟨q, hq, hl⟩
  leave {seen p queue d d'} h hfresh hnone hdts hloaded hembedded := by
    have hfound (s : Schema) : Found store (seen.insert p.location) s ↔ Found store seen s :=
      found_insert_of_none hnone s
    refine ⟨(stable_sound store).leave h.toSound hfresh hnone hdts hloaded hembedded, fun {l} hl => ?_,
      fun q hq => h.origins q (List.mem_cons_of_mem _ hq), fun {s} hs m hm => ?_, ?_, ?_⟩
    · rcases SortedSet.mem_insert.1 hl with rfl | hl
      · exact p.isNormal
      · exact h.normal hl
    · rcases h.imports ((hfound s).1 hs) m hm with hl | ⟨q, hq, hl⟩
      · exact .inl (contains_insert_of_contains hl)
      · rcases List.mem_cons.1 hq with rfl | hq
        · exact .inl (SortedSet.mem_insert.2 (.inl hl.symm))
        · exact .inr ⟨q, hq, hl⟩
    · simp only [hfound, hdts]
      exact h.taxonomies
    · simp only [hfound, hdts]
      exact h.registry
  enter h hfresh hdocument henter := h.enter horderly hfresh hdocument henter
  main entries h :=
    ⟨(stable_sound store).main entries h.toSound, h.normal, h.origins, h.imports, h.taxonomies, h.registry⟩

theorem not_found_empty (store : Store) (s : Schema) : ¬ Found store ∅ s := by
  rintro ⟨hseen, -⟩
  cases hseen

theorem explored_empty (store : Store) (journal : Journal) :
    Explored store ∅ [] { dts := {}, journal := journal } where
  toSound := sound_empty journal
  normal h := by cases h
  origins _ h := by cases h
  imports h := absurd h (not_found_empty store _)
  taxonomies := by simp [not_found_empty]
  registry := by
    simp only [not_found_empty, false_and, exists_false]
    exact Registry.Keeps.empty

theorem Explored.push {store : Store} {seen : SortedSet String} {queue : List Pending} {d : Discovery}
    (h : Explored store seen queue d) (entry : String) : Explored store seen (.of entry .entry :: queue) d where
  toSound := h.toSound.push entry
  normal := h.normal
  origins q hq j hj := by
    rcases List.mem_cons.1 hq with rfl | hq
    · cases hj
    · exact h.origins q hq j hj
  imports hs m hm := (h.imports hs m hm).imp_right fun ⟨q, hq, hl⟩ => ⟨q, List.mem_cons_of_mem _ hq, hl⟩
  taxonomies := h.taxonomies
  registry := h.registry

theorem explored_started {store : Store} (horderly : store.Orderly) {entries : List String} {journal : Journal}
    {p : Progress} {f : Option Fault}
    (henter : enterEntries store { discovery := { dts := {}, journal := journal } } entries = (p, f)) :
    Explored store (started store p).1 [] (started store p).2 :=
  (stable_explored horderly).started (fun h e _ => h.push e) (explored_empty store journal) henter

/-- Nothing is seen or pending but what imports lead to. -/
theorem stable_leads {store : Store} (horderly : store.Orderly) (Start : String → Prop) :
    Stable store fun seen queue _ => (∀ p ∈ queue, ∀ j, p.origin ≠ .including j) ∧
      ∀ l, (seen.contains l = true ∨ ∃ p ∈ queue, p.location = l) → store.Leads Start l where
  skip h _ := ⟨fun q hq => h.1 q (List.mem_cons_of_mem _ hq), fun l hl =>
    h.2 l (hl.imp_right fun ⟨q, hq, hl⟩ => ⟨q, List.mem_cons_of_mem _ hq, hl⟩)⟩
  leave {seen p queue d d'} h _ _ _ _ _ := by
    refine ⟨fun q hq => h.1 q (List.mem_cons_of_mem _ hq), fun l hl => h.2 l ?_⟩
    rcases hl with hl | ⟨q, hq, hl⟩
    · rcases SortedSet.mem_insert.1 hl with rfl | hl
      · exact .inr ⟨p, List.mem_cons_self, rfl⟩
      · exact .inl hl
    · exact .inr ⟨q, List.mem_cons_of_mem _ hq, hl⟩
  enter {seen p queue d d' i more root} h _ hdocument henter := by
    obtain ⟨s, hschema, hoffers, hcases⟩ := enter_orderly horderly hdocument (h.1 p List.mem_cons_self) henter
    have hp : store.Leads Start p.location := h.2 _ (.inr ⟨p, List.mem_cons_self, rfl⟩)
    have hmore : ∀ q ∈ more, ∃ m ∈ s.imports, q = .of m.location .importing := by
      rcases hcases with ⟨-, rfl⟩ | ⟨-, -, rfl⟩
      · intro q hq
        cases hq
      · intro q hq
        obtain ⟨m, hm, rfl⟩ := List.mem_map.1 hq
        exact ⟨m, hm, rfl⟩
    refine ⟨fun q hq j => ?_, fun l hl => ?_⟩
    · rcases List.mem_append.1 hq with hq | hq
      · exact h.1 q (List.mem_cons_of_mem _ hq) j
      · obtain ⟨m, -, rfl⟩ := hmore q hq
        intro hj
        cases hj
    · rcases hl with hl | ⟨q, hq, rfl⟩
      · rcases SortedSet.mem_insert.1 hl with rfl | hl
        · exact hp
        · exact h.2 l (.inl hl)
      · rcases List.mem_append.1 hq with hq | hq
        · exact h.2 _ (.inr ⟨q, List.mem_cons_of_mem _ hq, rfl⟩)
        · obtain ⟨m, hm, rfl⟩ := hmore q hq
          rw [← Store.location_of_schema? hschema] at hp
          have himported : store.Leads Start (Location.normalize m.location) := hp.imported hoffers.2 hm
          exact himported
  main _ h := h

/-- A closed set of locations holds what imports lead to from locations in it. -/
theorem Explored.contains_of_leads {store : Store} {seen : SortedSet String} {d : Discovery}
    (h : Explored store seen [] d) {Start : String → Prop} (hstart : ∀ l, Start l → seen.contains l = true)
    {l : String} (hl : store.Leads Start l) : seen.contains l = true := by
  induction hl with
  | start hl => exact hstart _ hl
  | imported _ hs hi ih => exact (h.imports ⟨ih, hs⟩ _ hi).resolve_right fun ⟨_, hp, _⟩ => by cases hp

/-- Once no schema is pending, those have been seen that imports lead to from the ones that were seen or
pending. -/
theorem contains_drain_iff {store : Store} (horderly : store.Orderly) {seen : SortedSet String}
    {queue : List Pending} {d : Discovery} (h : Explored store seen queue d) {l : String} :
    (drain store seen d queue).1.contains l = true ↔
      store.Leads (fun l => seen.contains l = true ∨ ∃ p ∈ queue, p.location = l) l := by
  constructor
  · intro hl
    exact ((stable_leads horderly _).drain queue (d := d) ⟨h.origins, fun l hl => .start hl⟩).2 l (.inl hl)
  · exact ((stable_explored horderly).drain queue h).contains_of_leads fun l hl => contains_drain hl

/-- The entries of a load that succeeds have been seen. -/
theorem contains_started {store : Store} {entries : List String} {p q : Progress}
    (henter : enterEntries store p entries = (q, none)) {entry : String} (hentry : entry ∈ entries) :
    (started store q).1.contains (Location.normalize entry) = true := by
  have hstable := stable_contains store (Location.normalize entry)
  suffices q.seen.contains (Location.normalize entry) = true ∨
      ∃ r ∈ q.queue, r.location = Location.normalize entry from contains_drain this
  induction entries generalizing p with
  | nil => cases hentry
  | cons e rest ih =>
    unfold enterEntries at henter
    split at henter
    · cases henter
    · rename_i r hr
      rcases List.mem_cons.1 hentry with rfl | hentry
      · have hpending : p.seen.contains (Location.normalize entry) = true ∨
            ∃ r ∈ Pending.of entry .entry :: p.queue, r.location = Location.normalize entry :=
          .inr ⟨_, List.mem_cons_self, rfl⟩
        have hfirst := hstable.enterEntry hpending
        rw [hr] at hfirst
        have hrest := hstable.enterEntries rest (fun h e _ => h.imp_right fun ⟨r, hr, hl⟩ =>
          ⟨r, List.mem_cons_of_mem _ hr, hl⟩) hfirst
        rwa [henter] at hrest
      · exact ih henter hentry

/-- Before the first round the schemas have been seen that imports lead to from the entries. -/
theorem contains_started_iff {store : Store} (horderly : store.Orderly) {entries : List String} {journal : Journal}
    {p : Progress} {l : String}
    (henter : enterEntries store { discovery := { dts := {}, journal := journal } } entries = (p, none)) :
    (started store p).1.contains l = true ↔
      store.Leads (fun l => ∃ entry ∈ entries, l = Location.normalize entry) l := by
  constructor
  · intro hl
    have hstable := stable_leads horderly fun l => ∃ entry ∈ entries, l = Location.normalize entry
    refine (hstable.started (fun {seen queue d} h entry hentry => ?_) ⟨?_, ?_⟩ henter).2 l (.inl hl)
    · refine ⟨fun q hq j hj => ?_, fun l hl => ?_⟩
      · rcases List.mem_cons.1 hq with rfl | hq
        · cases hj
        · exact h.1 q hq j hj
      · rcases hl with hl | ⟨q, hq, rfl⟩
        · exact h.2 l (.inl hl)
        · rcases List.mem_cons.1 hq with rfl | hq
          · exact .start ⟨entry, hentry, rfl⟩
          · exact h.2 _ (.inr ⟨q, hq, rfl⟩)
    · intro q hq
      cases hq
    · rintro l (hl | ⟨q, hq, -⟩)
      · cases hl
      · cases hq
  · refine (explored_started horderly henter).contains_of_leads fun l hl => ?_
    obtain ⟨entry, hentry, rfl⟩ := hl
    exact contains_started henter hentry

namespace Explored

variable {store : Store} {seen : SortedSet String} {d d' : Discovery}

/-- Locators may ask for schemas. -/
theorem locate (h : Explored store seen [] d) (hdts : d'.dts = d.dts) {queue : List Pending}
    (hqueue : ∀ p ∈ queue, p.origin = .locator) : Explored store seen queue d' where
  toSound := (h.toSound.of_dts hdts).of_queue fun p hp => .inr fun j hj => by
    rw [hqueue p hp] at hj
    cases hj
  normal := h.normal
  origins p hp j hj := by
    rw [hqueue p hp] at hj
    cases hj
  imports hs m hm := .inl ((h.imports hs m hm).resolve_right fun ⟨_, hp, _⟩ => by cases hp)
  taxonomies := hdts ▸ h.taxonomies
  registry := hdts ▸ h.registry

theorem addLinkbases (h : Explored store seen [] d) (linkbases : List (String × Markup.Node)) :
    Explored store seen [] (d.addLinkbases linkbases) := by
  refine List.foldlRecOn _ _ h fun d h linkbase _ => ?_
  refine ⟨h.toSound.addLinkbases [linkbase], h.normal, h.origins, h.imports, fun {u} => ?_, h.registry⟩
  change u ∈ (d.dts.taxonomies.map fun t : Taxonomy => t.attach _ _).map (·.unlinked) ↔ _
  rw [List.map_map, List.map_congr_left fun t _ => t.unlinked_attach _ _]
  exact h.taxonomies

/-- A linkbase is left if a schema that was seen refers to it or holds it, and it has not been taken. -/
theorem mem_unloaded_iff (h : Explored store seen [] d) {l : String} : l ∈ d.unloaded.map (·.1) ↔
    (∃ s, Found store seen s ∧ ∃ r ∈ Taxonomy.recordsOf s, r.location = l) ∧ d.loaded.contains l = false := by
  constructor
  · intro hl
    obtain ⟨p, hp, rfl⟩ := List.mem_map.1 hl
    obtain ⟨⟨i, j, r, hr, hlocation, -⟩, hfresh⟩ := exists_record?_of_mem_unloaded hp
    obtain ⟨t, ht, hr⟩ := Dts.record?_eq_some_iff.1 hr
    obtain ⟨s, hs, heq⟩ := h.taxonomies.1 (List.mem_map_of_mem (List.mem_of_getElem? ht))
    refine ⟨⟨s, hs, { r with links := [] }, ?_, hlocation⟩, hfresh⟩
    rw [← Taxonomy.linkbases_ofSchema, heq]
    exact List.mem_map_of_mem (List.mem_of_getElem? hr)
  · rintro ⟨⟨s, hs, r, hr, rfl⟩, hfresh⟩
    obtain ⟨t, ht, heq⟩ := List.mem_map.1 (h.taxonomies.2 ⟨s, hs, rfl⟩)
    rw [← Taxonomy.linkbases_ofSchema, ← heq] at hr
    obtain ⟨r', hr', rfl⟩ := List.mem_map.1 hr
    obtain ⟨i, j, hrecord⟩ := Dts.exists_record? ht hr'
    have hmem : r'.location ∈ d.unloaded.map (·.1) := mem_unloaded_of_record? hrecord hfresh
    exact hmem

end Explored

end Discovery

end TaxonomySet
