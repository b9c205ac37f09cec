import TaxonomySet.Proofs.Discovery.Naming

namespace TaxonomySet

namespace Discovery

theorem asked_addSchema (d : Discovery) (taxonomy : Nat) (s : Schema) (root : Markup.Node) :
    (d.addSchema taxonomy s root).asked = d.asked := by
  unfold addSchema
  dsimp only
  split <;> rfl

theorem asked_of_enter {d d' : Discovery} {location : String} {origin : Origin} {root : Markup.Node} {i : Nat}
    {more : List Pending} (h : d.enter location origin root = .ok (d', i, more)) : d'.asked = d.asked := by
  obtain ⟨_, s, ds, -, -, ⟨rfl, -, -⟩ | ⟨rfl, -, -⟩ | ⟨rfl, -, -, -⟩⟩ := enter_cases h
  · exact asked_addSchema _ _ _ _
  · rfl
  · exact asked_addSchema _ _ _ _

theorem asked_addLinkbases (d : Discovery) (linkbases : List (String × Markup.Node)) :
    (d.addLinkbases linkbases).asked = d.asked :=
  List.foldlRecOn (motive := fun e : Discovery => e.asked = d.asked) linkbases addLinkbase rfl fun _ he _ _ => he

theorem asked_readTree (store : Store) (d : Discovery) (location : String) (embedded : Bool) :
    (d.readTree store location embedded).1.asked = d.asked ++ if embedded then [] else [location] := by
  unfold readTree
  split
  · exact (List.append_nil _).symm
  · split <;> rfl

/-- Of the linkbases those are read that do not stand in schemas. -/
theorem asked_readTrees (store : Store) (d : Discovery) (pending : List (String × Bool)) :
    (d.readTrees store pending).1.asked = d.asked ++ (pending.filter fun l => !l.2).map (·.1) := by
  induction pending generalizing d with
  | nil => exact (List.append_nil _).symm
  | cons l rest ih =>
    obtain ⟨location, embedded⟩ := l
    change ((d.readTree store location embedded).1.readTrees store rest).1.asked = _
    rw [ih, asked_readTree, List.append_assoc]
    cases embedded <;> rfl

/-- One reading of a document. -/
inductive Read where
  | schema (location : String)
  | linkbase (location : String)
deriving DecidableEq, Repr

namespace Read

/-- The location that is read. -/
def location : Read → String
  | schema l | linkbase l => l

/-- The location, if it is read as a schema. -/
def schema? : Read → Option String
  | schema l => some l
  | linkbase _ => none

/-- The location, if it is read as a linkbase. -/
def linkbase? : Read → Option String
  | schema _ => none
  | linkbase l => some l

end Read

/-- Where a load stands. Each step skips or reads one document, or takes the linkbases of a round. -/
inductive Phase where
  /-- Entries wait to be read. -/
  | entering (p : Progress) (waiting : List String)
  /-- Schemas are pending. Linkbases that have been read wait for them. -/
  | reading (seen : SortedSet String) (d : Discovery) (queue : List Pending) (trees : List (String × Markup.Node))
    (entries : List Nat)
  | ended (d : Discovery) (result : Except Fault Receipt)

namespace Phase

variable (store : Store) (options : Options)

/-- The beginning of a load. -/
def start (entries : List String) (d : Discovery) : Phase :=
  if entries.isEmpty then .ended d (.error .noEntries) else .entering { discovery := d } entries

/-- One step of a load, and what it reads. A load that has ended stays as it is. -/
def next : Phase → Phase × List Read
  | entering p [] => (.reading p.seen (p.discovery.nameMain p.entries) p.queue [] p.entries, [])
  | entering p (entry :: waiting) =>
    (match enterEntry store p entry with
      | (p, none) => .entering p waiting
      | (p, some f) => .ended p.discovery (.error f),
    if p.seen.contains (Location.normalize entry) then [] else [.schema (Location.normalize entry)])
  | reading seen d (p :: queue) trees entries =>
    if seen.contains p.location then (.reading seen d queue trees entries, [])
    else
      (match store.document p.location with
        | .error f =>
          .reading (seen.insert p.location) ((d.ask p.location).report [unreadable p.location f]) queue trees entries
        | .ok root =>
          let entered := (d.ask p.location).enterPending p root
          .reading (seen.insert p.location) entered.1 (queue ++ entered.2) trees entries,
      [.schema p.location])
  | reading seen d [] trees entries =>
    let d := d.addLinkbases trees
    if options.linkbases = false ∨ d.unloaded = [] then (.ended d (.ok ⟨entries, seen.size, d.loaded.size⟩), [])
    else
      let taken := d.takeLinkbases store
      (.reading seen taken.1 (if options.locators then taken.1.targets seen taken.2 else []) taken.2 entries,
      (d.unloaded.filter fun l => !l.2).map fun l => .linkbase l.1)
  | ended d result => (.ended d result, [])

/-- So many steps of a load, and what they read. -/
def run : Nat → Phase → Phase × List Read
  | 0, phase => (phase, [])
  | n + 1, phase =>
    let rest := run n (phase.next store options).1
    (rest.1, (phase.next store options).2 ++ rest.2)

variable {store options}

theorem run_add (m n : Nat) (phase : Phase) : run store options (m + n) phase =
    ((run store options n (run store options m phase).1).1,
      (run store options m phase).2 ++ (run store options n (run store options m phase).1).2) := by
  induction m generalizing phase with
  | zero => rw [Nat.zero_add]; rfl
  | succ m ih =>
    rw [Nat.succ_add, run, ih]
    simp only [run, List.append_assoc]

/-- What each step keeps of a phase, and of what has been read until then, holds after any number of steps. -/
theorem run_induction {P : Phase → List Read → Prop}
    (hnext : ∀ {phase reads}, P phase reads → P (phase.next store options).1 (reads ++ (phase.next store options).2))
    (n : Nat) {phase : Phase} {reads : List Read} (h : P phase reads) :
    P (run store options n phase).1 (reads ++ (run store options n phase).2) := by
  induction n generalizing reads phase with
  | zero =>
    rw [run, List.append_nil]
    exact h
  | succ n ih =>
    rw [run, ← List.append_assoc]
    exact ih (hnext h)

/-- Whether steps lead from one phase to another. -/
def Reaches (store : Store) (options : Options) (a b : Phase) : Prop := ∃ n, (run store options n a).1 = b

theorem Reaches.refl (a : Phase) : Reaches store options a a := ⟨0, rfl⟩

theorem Reaches.next {a b : Phase} (h : Reaches store options (a.next store options).1 b) :
    Reaches store options a b := by
  obtain ⟨n, rfl⟩ := h
  exact ⟨n + 1, rfl⟩

theorem Reaches.trans {a b c : Phase} (hab : Reaches store options a b) (hbc : Reaches store options b c) :
    Reaches store options a c := by
  obtain ⟨m, rfl⟩ := hab
  obtain ⟨n, rfl⟩ := hbc
  exact ⟨m + n, by rw [run_add]⟩

theorem reaches_drain (seen : SortedSet String) (d : Discovery) (queue : List Pending)
    (trees : List (String × Markup.Node)) (entries : List Nat) :
    Reaches store options (.reading seen d queue trees entries)
      (.reading (drain store seen d queue).1 (drain store seen d queue).2 [] trees entries) := by
  fun_induction drain store seen d queue with
  | case1 seen d => exact .refl _
  | case2 seen d p queue hseen ih =>
    refine Reaches.next ?_
    rw [Phase.next, if_pos hseen]
    exact ih
  | case3 seen d p queue hseen f hread ih =>
    refine Reaches.next ?_
    rw [Phase.next, if_neg hseen, hread]
    exact ih
  | case4 seen d p queue hseen root hread entered ih =>
    refine Reaches.next ?_
    rw [Phase.next, if_neg hseen, hread]
    exact ih

/-- What the rounds of linkbases end with. -/
theorem reaches_rounds (hlinkbases : options.linkbases = true) (seen : SortedSet String) (d : Discovery)
    (trees : List (String × Markup.Node)) (entries : List Nat) :
    let last := rounds store options.locators seen (d.addLinkbases trees)
    Reaches store options (.reading seen d [] trees entries)
      (.ended last.2 (.ok ⟨entries, last.1.size, last.2.loaded.size⟩)) := by
  intro last
  have hrounds (seen : SortedSet String) (found : Discovery) : ∀ d trees, d.addLinkbases trees = found →
      let last := rounds store options.locators seen found
      Reaches store options (.reading seen d [] trees entries)
        (.ended last.2 (.ok ⟨entries, last.1.size, last.2.loaded.size⟩)) := by
    fun_induction rounds store options.locators seen found with
    | case1 seen found hnil =>
      rintro d trees rfl
      refine Reaches.next ?_
      rw [Phase.next, if_pos (.inr hnil)]
      exact .refl _
    | case2 seen found hne following ih =>
      rintro d trees rfl
      refine Reaches.next ?_
      rw [Phase.next, if_neg (not_or.2 ⟨by simp [hlinkbases], hne⟩)]
      exact (reaches_drain _ _ _ _ _).trans (ih _ _ rfl)
  exact hrounds seen _ d trees rfl

theorem reaches_enterEntries (p : Progress) (waiting : List String) :
    Reaches store options (.entering p waiting)
      (match enterEntries store p waiting with
        | (p, none) => .entering p []
        | (p, some f) => .ended p.discovery (.error f)) := by
  induction waiting generalizing p with
  | nil => exact .refl _
  | cons entry waiting ih =>
    refine Reaches.next ?_
    rw [Phase.next, enterEntries]
    rcases enterEntry store p entry with ⟨q, _ | f⟩
    · exact ih q
    · exact .refl _

/-- A load comes to an end, where it has found what `load` finds. -/
theorem reaches_load (entries : List String) (d : Discovery) :
    Reaches store options (start entries d)
      (.ended (load store options entries d).1 (load store options entries d).2) := by
  unfold start load
  split
  · exact .refl _
  · have hentered : Reaches store options (.entering { discovery := d } entries) _ := reaches_enterEntries _ entries
    rcases henter : enterEntries store { discovery := d } entries with ⟨p, _ | f⟩
    · rw [henter] at hentered
      have hdrained : Reaches store options (.reading p.seen (p.discovery.nameMain p.entries) p.queue [] p.entries) _ :=
        reaches_drain ..
      refine hentered.trans (Reaches.next (hdrained.trans ?_))
      cases hlinkbases : options.linkbases with
      | true => exact reaches_rounds hlinkbases _ _ [] _
      | false =>
        refine Reaches.next ?_
        rw [Phase.next, if_pos (.inl hlinkbases)]
        exact .refl _
    · rw [henter] at hentered
      exact hentered

end Phase

theorem mem_filterMap_schema? {reads : List Read} {l : String} :
    l ∈ reads.filterMap Read.schema? ↔ .schema l ∈ reads := by
  rw [List.mem_filterMap]
  constructor
  · rintro ⟨_ | _, hread, hl⟩ <;> cases hl
    exact hread
  · exact fun h => ⟨_, h, rfl⟩

theorem mem_filterMap_linkbase? {reads : List Read} {l : String} :
    l ∈ reads.filterMap Read.linkbase? ↔ .linkbase l ∈ reads := by
  rw [List.mem_filterMap]
  constructor
  · rintro ⟨_ | _, hread, hl⟩ <;> cases hl
    exact hread
  · exact fun h => ⟨_, h, rfl⟩

theorem filterMap_schema?_linkbases (ls : List (String × Bool)) :
    (ls.map fun l => Read.linkbase l.1).filterMap Read.schema? = [] := by
  rw [List.filterMap_map]
  exact List.filterMap_eq_nil_iff.2 fun _ _ => rfl

/-- How what has been read relates to what has been seen, is pending and has been discovered. Nothing was read
twice for one purpose: the schemas that were read are those seen, and linkbases were read only where they have been
taken. What the taxonomies name has been seen or is pending. -/
structure Tracked (reads : List Read) (seen : SortedSet String) (queue : List Pending) (d : Discovery) : Prop where
  asked : d.asked = reads.map Read.location
  schemas : (reads.filterMap Read.schema?).Nodup
  linkbases : (reads.filterMap Read.linkbase?).Nodup
  mem_schemas : ∀ {l}, .schema l ∈ reads ↔ seen.contains l = true
  taken : ∀ {l}, .linkbase l ∈ reads → d.loaded.contains l = true
  named : ∀ {l}, d.Names l → seen.contains l = true ∨ ∃ q ∈ queue, q.location = l

theorem tracked_empty (journal : Journal) : Tracked [] ∅ [] { dts := {}, journal := journal } where
  asked := rfl
  schemas := List.nodup_nil
  linkbases := List.nodup_nil
  mem_schemas := iff_of_false List.not_mem_nil Bool.false_ne_true
  taken h := by cases h
  named := by
    rintro l ⟨t, ht, -⟩
    cases ht

namespace Tracked

variable {reads : List Read} {seen : SortedSet String} {queue : List Pending} {d d' : Discovery} {p : Pending}

/-- More may be pending, and the discovery may change where nothing is read. -/
theorem mono (h : Tracked reads seen queue d) {queue' : List Pending} (hqueue : queue ⊆ queue')
    (hasked : d'.asked = d.asked) (hloaded : d'.loaded = d.loaded) (hnames : ∀ l, d'.Names l → d.Names l) :
    Tracked reads seen queue' d' where
  asked := hasked.trans h.asked
  schemas := h.schemas
  linkbases := h.linkbases
  mem_schemas := h.mem_schemas
  taken hl := hloaded ▸ h.taken hl
  named hl := (h.named (hnames _ hl)).imp_right fun ⟨q, hq, hlocation⟩ => ⟨q, hqueue hq, hlocation⟩

theorem skip (h : Tracked reads seen (p :: queue) d) (hseen : seen.contains p.location = true) :
    Tracked reads seen queue d where
  asked := h.asked
  schemas := h.schemas
  linkbases := h.linkbases
  mem_schemas := h.mem_schemas
  taken := h.taken
  named hl := by
    rcases h.named hl with hl | ⟨q, hq, rfl⟩
    · exact .inl hl
    · rcases List.mem_cons.1 hq with rfl | hq
      · exact .inl hseen
      · exact .inr ⟨q, hq, rfl⟩

/-- A schema is read. What its taxonomy names because of it becomes pending. -/
theorem read (h : Tracked reads seen (p :: queue) d) (hfresh : seen.contains p.location = false)
    {more : List Pending} (hasked : d'.asked = d.asked ++ [p.location]) (hloaded : d'.loaded = d.loaded)
    (hnames : ∀ l, d'.Names l → d.Names l ∨ ∃ q ∈ more, q.location = l) :
    Tracked (reads ++ [.schema p.location]) (seen.insert p.location) (queue ++ more) d' where
  asked := by
    rw [hasked, h.asked, List.map_append]
    rfl
  schemas := by
    rw [List.filterMap_append]
    refine List.nodup_append.2 ⟨h.schemas, List.nodup_singleton _, fun l hl m hm heq => ?_⟩
    rw [heq, List.mem_singleton.1 hm, mem_filterMap_schema?, h.mem_schemas, hfresh] at hl
    cases hl
  linkbases := by
    rw [List.filterMap_append]
    exact (List.append_nil _).symm ▸ h.linkbases
  mem_schemas {l} := by
    rw [List.mem_append, h.mem_schemas, List.mem_singleton, Read.schema.injEq, or_comm]
    exact SortedSet.mem_insert.symm
  taken hl := by
    rw [hloaded]
    exact h.taken ((List.mem_append.1 hl).resolve_right fun hl => by cases List.mem_singleton.1 hl)
  named {l} hl := by
    rcases hnames l hl with hl | ⟨q, hq, rfl⟩
    · rcases h.named hl with hl | ⟨q, hq, rfl⟩
      · exact .inl (contains_insert_of_contains hl)
      · rcases List.mem_cons.1 hq with rfl | hq
        · exact .inl (SortedSet.mem_insert.2 (.inl rfl))
        · exact .inr ⟨q, List.mem_append_left _ hq, rfl⟩
    · exact .inr ⟨q, List.mem_append_right _ hq, rfl⟩

/-- A document is left out after it has been read. -/
theorem leave (h : Tracked reads seen (p :: queue) d) (hfresh : seen.contains p.location = false)
    (hasked : d'.asked = d.asked ++ [p.location]) (hloaded : d'.loaded = d.loaded) (hdts : d'.dts = d.dts) :
    Tracked (reads ++ [.schema p.location]) (seen.insert p.location) queue d' := by
  rw [← List.append_nil queue]
  refine h.read hfresh hasked hloaded fun l hl => .inl ?_
  unfold Names at hl ⊢
  rwa [← hdts]

/-- The linkbases of a round are taken. None of them has been taken before. -/
theorem takeLinkbases (h : Tracked reads seen [] d) (store : Store) (queue : List Pending) :
    Tracked (reads ++ (d.unloaded.filter fun l => !l.2).map fun l => .linkbase l.1) seen queue
      (d.takeLinkbases store).1 := by
  obtain ⟨hdts, -, hloaded⟩ := takeLinkbases_fst store d
  have hschemas := filterMap_schema?_linkbases (d.unloaded.filter fun l => !l.2)
  have hlinkbases : ((d.unloaded.filter fun l => !l.2).map fun l => Read.linkbase l.1).filterMap Read.linkbase? =
      (d.unloaded.filter fun l => !l.2).map (·.1) := by
    rw [List.filterMap_map]
    exact congrFun List.filterMap_eq_map _
  have hsub : ((d.unloaded.filter fun l => !l.2).map (·.1)).Sublist (d.unloaded.map (·.1)) :=
    List.filter_sublist.map _
  refine ⟨?_, ?_, ?_, fun {l} => ?_, fun {l} hl => ?_, fun {l} hl => ?_⟩
  · have hasked := asked_readTrees store { d with loaded := d.loaded.insertAll (d.unloaded.map (·.1)) } d.unloaded
    refine hasked.trans ?_
    rw [List.map_append, List.map_map, ← h.asked]
    rfl
  · rw [List.filterMap_append, hschemas, List.append_nil]
    exact h.schemas
  · rw [List.filterMap_append, hlinkbases]
    refine List.nodup_append.2 ⟨h.linkbases, hsub.nodup d.nodup_unloaded, fun l hl m hm heq => ?_⟩
    subst heq
    obtain ⟨pending, hpending, rfl⟩ := List.mem_map.1 (hsub.subset hm)
    have htaken := h.taken (mem_filterMap_linkbase?.1 hl)
    rw [(exists_record?_of_mem_unloaded hpending).2] at htaken
    cases htaken
  · rw [← mem_filterMap_schema?, List.filterMap_append, hschemas, List.append_nil, mem_filterMap_schema?]
    exact h.mem_schemas
  · rw [hloaded]
    refine SortedSet.mem_insertAll.2 ?_
    rcases List.mem_append.1 hl with hl | hl
    · exact .inr (h.taken hl)
    · rw [← mem_filterMap_linkbase?, hlinkbases] at hl
      exact .inl (hsub.subset hl)
  · unfold Names at hl
    rw [hdts] at hl
    exact (h.named hl).imp_right fun ⟨q, hq, _⟩ => by cases hq

end Tracked

theorem enterPending_reads (d : Discovery) (p : Pending) (root : Markup.Node) :
    ((d.ask p.location).enterPending p root).1.asked = d.asked ++ [p.location] ∧
      ((d.ask p.location).enterPending p root).1.loaded = d.loaded ∧
      ∀ l, ((d.ask p.location).enterPending p root).1.Names l →
        d.Names l ∨ ∃ q ∈ ((d.ask p.location).enterPending p root).2, q.location = l := by
  unfold enterPending
  split
  · rename_i d' i more henter
    exact ⟨asked_of_enter henter, (links_of_enter henter).2, fun l hl => names_of_enter henter hl⟩
  · split <;> exact ⟨rfl, rfl, fun l hl => .inl hl⟩

namespace Phase

variable {store : Store} {options : Options}

/-- What holds in each phase of a load. Once it has ended without a fault, nothing is left. -/
def Tracked (options : Options) (reads : List Read) : Phase → Prop
  | entering p _ => Discovery.Tracked reads p.seen p.queue p.discovery
  | reading seen d queue _ _ => Discovery.Tracked reads seen queue d
  | ended d result => ∃ seen queue, Discovery.Tracked reads seen queue d ∧
    ∀ receipt, result = .ok receipt → queue = [] ∧ (options.linkbases = true → d.unloaded = [])

theorem tracked_start (entries : List String) (journal : Journal) :
    (start entries { dts := {}, journal := journal }).Tracked options [] := by
  unfold start
  split
  · exact ⟨∅, [], tracked_empty journal, fun _ h => by cases h⟩
  · exact tracked_empty journal

/-- An entry is read as a pending schema is, but a fault ends the load. -/
theorem tracked_enterEntry {reads : List Read} {p : Progress}
    (h : Discovery.Tracked reads p.seen p.queue p.discovery) (entry : String) (waiting : List String) :
    ((Phase.entering p (entry :: waiting)).next store options).1.Tracked options
      (reads ++ ((Phase.entering p (entry :: waiting)).next store options).2) := by
  have hpushed : Discovery.Tracked reads p.seen (.of entry .entry :: p.queue) p.discovery :=
    h.mono (List.subset_cons_self _ _) rfl rfl fun _ hl => hl
  rw [Phase.next]
  unfold enterEntry
  dsimp only
  by_cases hseen : p.seen.contains (Location.normalize entry) = true
  · rw [if_pos hseen, if_pos hseen, List.append_nil]
    exact h.mono (List.Subset.refl _) rfl rfl fun _ hl => hl
  · have hfresh := Bool.eq_false_iff.2 hseen
    rw [if_neg hseen, if_neg hseen]
    cases hread : store.document (Location.normalize entry) with
    | error f => exact ⟨_, _, hpushed.leave hfresh rfl rfl rfl, fun _ h => by cases h⟩
    | ok root =>
      dsimp only
      cases henter : (p.discovery.ask (Location.normalize entry)).enter (Location.normalize entry) .entry root with
      | error f => exact ⟨_, _, hpushed.leave hfresh rfl rfl rfl, fun _ h => by cases h⟩
      | ok entered =>
        obtain ⟨d', i, more⟩ := entered
        exact hpushed.read hfresh (asked_of_enter henter) (links_of_enter henter).2 fun l hl => names_of_enter henter hl

/-- One step. -/
theorem Tracked.next {reads : List Read} {phase : Phase} (h : phase.Tracked options reads) :
    (phase.next store options).1.Tracked options (reads ++ (phase.next store options).2) := by
  match phase, h with
  | entering p [], h =>
    rw [Phase.next, List.append_nil]
    exact h.mono (List.Subset.refl _) rfl rfl fun _ hl => hl
  | entering p (entry :: waiting), h => exact tracked_enterEntry h entry waiting
  | reading seen d (p :: queue) trees entries, h =>
    rw [Phase.next]
    split
    · rename_i hseen
      rw [List.append_nil]
      exact h.skip hseen
    · rename_i hfresh
      rw [Bool.not_eq_true] at hfresh
      split
      · exact h.leave hfresh rfl rfl rfl
      · obtain ⟨hasked, hloaded, hnames⟩ := enterPending_reads d p _
        exact h.read hfresh hasked hloaded hnames
  | reading seen d [] trees entries, h =>
    have hadded : Discovery.Tracked reads seen [] (d.addLinkbases trees) :=
      h.mono (List.Subset.refl _) (asked_addLinkbases d trees) (addLinkbases_loaded d trees).1
        fun _ hl => names_of_addLinkbases hl
    rw [Phase.next]
    split
    · rename_i hend
      rw [List.append_nil]
      exact ⟨seen, [], hadded, fun _ _ => ⟨rfl, fun hlinkbases => hend.resolve_left (by simp [hlinkbases])⟩⟩
    · exact hadded.takeLinkbases store _
  | ended d result, h =>
    rw [Phase.next, List.append_nil]
    exact h

/-- Any number of steps. -/
theorem Tracked.run {reads : List Read} {phase : Phase} (h : phase.Tracked options reads) (n : Nat) :
    (Phase.run store options n phase).1.Tracked options (reads ++ (Phase.run store options n phase).2) :=
  run_induction (P := fun phase reads => phase.Tracked options reads) Tracked.next n h

end Phase

/-- A load comes to an end after some number of steps, whatever the documents of the store refer to. It has then found
what `load` finds, and has read each location at most once as a schema and at most once as a linkbase. If it did
not fail, all locations have been read that the schemas of a taxonomy import or include, and, if linkbases are wanted,
all linkbases have been taken that a taxonomy refers to. -/
theorem load_terminates (store : Store) (options : Options) (entries : List String) (journal : Journal) :
    let d : Discovery := { dts := {}, journal := journal }
    let found := (load store options entries d).1
    ∃ n reads, (Phase.start entries d).run store options n = (.ended found (load store options entries d).2, reads) ∧
      found.asked = reads.map Read.location ∧
      (reads.filterMap Read.schema?).Nodup ∧ (reads.filterMap Read.linkbase?).Nodup ∧
      ∀ receipt, (load store options entries d).2 = .ok receipt → ∀ t ∈ found.dts.taxonomies,
        (∀ l, l ∈ t.imports ∨ l ∈ t.includes → .schema l ∈ reads) ∧
        (options.linkbases = true → ∀ r ∈ t.linkbases, found.loaded.contains r.location = true) := by
  intro d found
  obtain ⟨n, hn⟩ : Phase.Reaches store options (Phase.start entries d) (.ended found _) := Phase.reaches_load entries d
  have htracked : (Phase.run store options n (Phase.start entries d)).1.Tracked options _ :=
    (Phase.tracked_start entries journal).run n
  rw [hn, List.nil_append] at htracked
  obtain ⟨seen, queue, hall, hend⟩ := htracked
  refine ⟨n, _, Prod.ext hn rfl, hall.asked, hall.schemas, hall.linkbases, fun receipt hok t ht => ?_⟩
  obtain ⟨rfl, hunloaded⟩ := hend receipt hok
  refine ⟨fun l hl => ?_, fun hlinkbases r hr => ?_⟩
  · exact hall.mem_schemas.2 ((hall.named ⟨t, ht, hl⟩).resolve_right fun ⟨_, hq, _⟩ => by cases hq)
  · obtain ⟨i, j, hrecord⟩ := Dts.exists_record? ht hr
    by_contra hfresh
    have hpending := mem_unloaded_of_record? hrecord (Bool.not_eq_true _ ▸ hfresh)
    rw [hunloaded hlinkbases] at hpending
    cases hpending

end Discovery

end TaxonomySet
