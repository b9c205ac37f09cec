import TaxonomySet.Proofs.Diagnostic
import TaxonomySet.Proofs.Discovery.Evaluation
import TaxonomySet.Proofs.Discovery.Running

namespace TaxonomySet

namespace Discovery

variable {store : Store} {options : Options}

/-- A document that has been read cannot be taken in exactly if it holds no schema. -/
theorem enter_eq_error_iff {d : Discovery} {location : String} {origin : Origin} {root : Markup.Node}
    (hdocument : store.document location = .ok root) :
    (∃ f, d.enter location origin root = .error f) ↔ store.schema? location = none := by
  constructor
  · rintro ⟨f, henter⟩
    exact schema?_of_enter_eq_error hdocument henter
  · intro hnone
    cases henter : d.enter location origin root with
    | error f => exact ⟨f, rfl⟩
    | ok entered =>
      obtain ⟨d', i, more⟩ := entered
      obtain ⟨adopted, s, ds, hread, -, -⟩ := enter_cases henter
      exact absurd hnone ((schema?_of_read hdocument).1 ⟨_, hread⟩)

/-- An entry is read without a fault exactly if it is a schema, as all that have been seen are. -/
theorem enterEntry_eq_none_iff {p : Progress} (hseen : ∀ {l}, p.seen.contains l = true → store.schema? l ≠ none)
    (entry : String) : (enterEntry store p entry).2 = none ↔ store.schema? (Location.normalize entry) ≠ none := by
  unfold enterEntry
  dsimp only
  split
  · rename_i hcontains
    exact iff_of_true rfl (hseen hcontains)
  · cases hread : store.document (Location.normalize entry) with
    | error f =>
      exact iff_of_false nofun fun h => h (Store.schema?_of_error hread)
    | ok root =>
      have hfails : (∃ f, (p.discovery.ask (Location.normalize entry)).enter (Location.normalize entry) .entry root =
          .error f) ↔ _ := enter_eq_error_iff hread
      dsimp only
      cases henter : (p.discovery.ask (Location.normalize entry)).enter (Location.normalize entry) .entry root with
      | error f => exact iff_of_false nofun fun h => h (hfails.1 ⟨f, henter⟩)
      | ok entered =>
        refine iff_of_true rfl fun hnone => ?_
        obtain ⟨f, hf⟩ := hfails.2 hnone
        rw [henter] at hf
        cases hf

theorem seen_enterEntry (p : Progress) (entry : String) {l : String}
    (h : (enterEntry store p entry).1.seen.contains l = true) :
    l = Location.normalize entry ∨ p.seen.contains l = true := by
  unfold enterEntry at h
  dsimp only at h
  split at h
  · exact .inr h
  · split at h
    · exact SortedSet.mem_insert.1 h
    · split at h
      · exact SortedSet.mem_insert.1 h
      · exact SortedSet.mem_insert.1 h

/-- All entries are read exactly if all are schemas. -/
theorem enterEntries_eq_none_iff {p : Progress} (hseen : ∀ {l}, p.seen.contains l = true → store.schema? l ≠ none)
    (entries : List String) : (enterEntries store p entries).2 = none ↔
      ∀ e ∈ entries, store.schema? (Location.normalize e) ≠ none := by
  induction entries generalizing p with
  | nil => exact iff_of_true rfl fun e he => by cases he
  | cons entry rest ih =>
    have hentry := enterEntry_eq_none_iff hseen entry
    have hnext {l : String} : (enterEntry store p entry).1.seen.contains l = true → _ := seen_enterEntry p entry
    rw [enterEntries, List.forall_mem_cons]
    rcases heq : enterEntry store p entry with ⟨q, _ | f⟩
    · rw [heq] at hentry hnext
      have hread := hentry.1 rfl
      refine (ih fun {l} hl => ?_).trans (and_iff_right hread).symm
      rcases hnext hl with rfl | hl
      · exact hread
      · exact hseen hl
    · rw [heq] at hentry
      exact iff_of_false (Option.some_ne_none f) fun h => Option.some_ne_none f (hentry.2 h.1)

/-- What ends a load is a fault of the configuration. -/
theorem family_of_enterEntries {p q : Progress} {entries : List String} {f : Fault}
    (h : enterEntries store p entries = (q, some f)) : f.family = .configuration := by
  induction entries generalizing p with
  | nil => cases h
  | cons entry rest ih =>
    rw [enterEntries] at h
    split at h
    · rename_i heq
      cases h
      unfold enterEntry at heq
      dsimp only at heq
      repeat' split at heq
      all_goals cases heq
      all_goals rfl
    · exact ih h

/-- Whether a load fails does not depend on what there is before it. -/
theorem load_eq_error_iff {entries : List String} (hne : entries ≠ []) (d : Discovery) :
    (∃ f, (load store options entries d).2 = .error f) ↔
      ∃ e ∈ entries, store.schema? (Location.normalize e) = none := by
  have hread : (enterEntries store { discovery := d } entries).2 = none ↔ _ :=
    enterEntries_eq_none_iff (fun {l} h => by cases h) entries
  have hnot : (∃ e ∈ entries, store.schema? (Location.normalize e) = none) ↔
      (enterEntries store { discovery := d } entries).2 ≠ none := by
    rw [Ne, hread]
    push Not
    rfl
  rw [hnot]
  unfold load
  rw [if_neg (by simpa using hne)]
  rcases enterEntries store { discovery := d } entries with ⟨p, _ | f⟩
  · exact iff_of_false (fun ⟨_, h⟩ => by cases h) fun h => h rfl
  · exact iff_of_true ⟨f, rfl⟩ nofun

theorem family_of_load {entries : List String} {d : Discovery} {f : Fault}
    (h : (load store options entries d).2 = .error f) : f.family = .configuration := by
  unfold load at h
  split at h
  · cases h
    rfl
  · split at h
    · rename_i henter
      cases h
      exact family_of_enterEntries henter
    · cases h

/-- The codes of documents that are skipped because they cannot be read. -/
def skipCodes : List String := ["dts:unparsableDocument", "dts:documentNotFound"]

/-- Whether a diagnostic reports that a document is skipped because it cannot be read. -/
def isSkip (d : Diagnostic) : Bool := decide (d.code ∈ skipCodes)

theorem isSkip_unreadable (location : String) (f : Fault) : isSkip (unreadable location f) = true := by
  unfold unreadable isSkip
  cases f.family <;> simp [skipCodes]

theorem field?_unreadable (location : String) (f : Fault) : (unreadable location f).field? "document" = some location := by
  unfold unreadable
  split
  rfl

theorem isSkip_of_within {α : Type} {codes : List String} {r : Reported α} (h : r.Within codes)
    (hcodes : ∀ c ∈ codes, c ∉ skipCodes) : ∀ x ∈ r.diagnostics, isSkip x = false :=
  fun x hx => decide_eq_false (hcodes _ (h x hx))

/-- What reading a document adds to the reports, if it could not be read. -/
def failure? (store : Store) (r : Read) : Option Diagnostic :=
  match store.document r.location with
  | .error f => some (unreadable r.location f)
  | .ok _ => none

/-- Whether a journal reports each time that a document could not be read, and no other time. -/
structure Accounts (store : Store) (reads : List Read) (j : Journal) : Prop where
  keeps : j.keeps = true
  skips : j.entries.filter isSkip = reads.filterMap (failure? store)

namespace Accounts

variable {reads : List Read} {j : Journal}

theorem report (h : Accounts store reads j) {ds : List Diagnostic} (hds : ∀ x ∈ ds, isSkip x = false) :
    Accounts store reads (j.report ds) := by
  unfold Journal.report
  rw [if_pos h.keeps]
  have hnone : ds.filter isSkip = [] := List.filter_eq_nil_iff.2 fun x hx => Bool.eq_false_iff.1 (hds x hx)
  refine ⟨h.keeps, ?_⟩
  rw [List.filter_append, hnone, List.append_nil]
  exact h.skips

theorem read (h : Accounts store reads j) {r : Read} {root : Markup.Node}
    (hread : store.document r.location = .ok root) : Accounts store (reads ++ [r]) j := by
  refine ⟨h.keeps, ?_⟩
  have hnone : failure? store r = none := by
    unfold failure?
    rw [hread]
  rw [List.filterMap_append, List.filterMap_cons_none hnone]
  exact h.skips.trans (List.append_nil _).symm

theorem fail (h : Accounts store reads j) {r : Read} {f : Fault} (hread : store.document r.location = .error f) :
    Accounts store (reads ++ [r]) (j.report [unreadable r.location f]) := by
  unfold Journal.report
  rw [if_pos h.keeps]
  refine ⟨h.keeps, ?_⟩
  have hsome : failure? store r = some (unreadable r.location f) := by
    unfold failure?
    rw [hread]
  rw [List.filterMap_append, List.filterMap_cons_some hsome, List.filter_append, h.skips,
    List.filter_cons_of_pos (isSkip_unreadable r.location f)]
  rfl

end Accounts

variable {reads : List Read}

theorem Accounts.addSchema {d : Discovery} (h : Accounts store reads d.journal) (taxonomy : Nat) (s : Schema)
    (root : Markup.Node) : Accounts store reads (d.addSchema taxonomy s root).journal := by
  unfold Discovery.addSchema
  have hregistered := h.report
    (isSkip_of_within (Registry.within_addAll d.dts.registry s.roleTypes s.arcroleTypes) (by decide))
  dsimp only
  split
  · exact hregistered
  · exact hregistered.report (isSkip_of_within (Taxonomy.within_addSchema _ s) (by decide))

theorem Accounts.enter {d d' : Discovery} (h : Accounts store reads d.journal) {location : String} {origin : Origin}
    {root : Markup.Node} {i : Nat} {more : List Pending} (henter : d.enter location origin root = .ok (d', i, more)) :
    Accounts store reads d'.journal := by
  obtain ⟨_, s, ds, hread, -, hcases⟩ := enter_cases henter
  have hreported := h.report (isSkip_of_within (Schema.within_read hread) (by decide))
  obtain ⟨rfl, -, -⟩ | ⟨rfl, -, -⟩ | ⟨rfl, -, -, -⟩ := hcases
  · exact Accounts.addSchema (d := { d.report ds with dts := _ }) hreported _ _ _
  · exact hreported
  · exact Accounts.addSchema (d := { d.report ds with dts := _ }) hreported _ _ _

theorem Accounts.enterPending {d : Discovery} (h : Accounts store reads d.journal) (p : Pending)
    (root : Markup.Node) : Accounts store reads (d.enterPending p root).1.journal := by
  unfold Discovery.enterPending
  split
  · rename_i henter
    exact h.enter henter
  · split
    · exact h
    · refine h.report fun x hx => ?_
      rw [List.mem_singleton.1 hx]
      unfold isSkip notSchema
      simp [skipCodes]

theorem Accounts.addLinkbases {d : Discovery} (h : Accounts store reads d.journal)
    (linkbases : List (String × Markup.Node)) : Accounts store reads (d.addLinkbases linkbases).journal :=
  List.foldlRecOn (motive := fun e : Discovery => Accounts store reads e.journal) linkbases addLinkbase h
    fun _ he linkbase _ => he.report (isSkip_of_within (ExtendedLink.within_readAll _ linkbase.1 linkbase.2) (by decide))

/-- Of the linkbases that are taken, those are read that do not stand in schemas. -/
theorem Accounts.readTrees {d : Discovery} (h : Accounts store reads d.journal) (pending : List (String × Bool)) :
    Accounts store (reads ++ (pending.filter fun l => !l.2).map fun l => .linkbase l.1)
      (d.readTrees store pending).1.journal := by
  induction pending generalizing reads d with
  | nil => exact (List.append_nil reads).symm ▸ h
  | cons l rest ih =>
    obtain ⟨location, embedded⟩ := l
    change Accounts _ _ ((d.readTree store location embedded).1.readTrees store rest).1.journal
    unfold readTree
    cases embedded with
    | true => exact ih h
    | false =>
      rw [List.filter_cons_of_pos rfl, List.map_cons, List.append_cons]
      rw [if_neg Bool.false_ne_true]
      cases hread : store.document location with
      | error f => exact ih (Accounts.fail (r := .linkbase location) h hread)
      | ok root => exact ih (Accounts.read (r := .linkbase location) h hread)

theorem Accounts.takeLinkbases {d : Discovery} (h : Accounts store reads d.journal) :
    Accounts store (reads ++ (d.unloaded.filter fun l => !l.2).map fun l => .linkbase l.1)
      (d.takeLinkbases store).1.journal :=
  Accounts.readTrees (d := { d with loaded := d.loaded.insertAll (d.unloaded.map (·.1)) }) h d.unloaded

namespace Phase

/-- What the journal says in each phase of a load. Nothing is said of a load that failed. -/
def Accounted (store : Store) (reads : List Read) : Phase → Prop
  | entering p _ => Accounts store reads p.discovery.journal
  | reading _ d _ _ _ => Accounts store reads d.journal
  | ended d result => ∀ receipt, result = .ok receipt → Accounts store reads d.journal

theorem accounted_enterEntry {p : Progress} (h : Accounts store reads p.discovery.journal) (entry : String)
    (waiting : List String) : ((Phase.entering p (entry :: waiting)).next store options).1.Accounted store
      (reads ++ ((Phase.entering p (entry :: waiting)).next store options).2) := by
  rw [Phase.next]
  unfold enterEntry
  dsimp only
  by_cases hseen : p.seen.contains (Location.normalize entry) = true
  · rw [if_pos hseen, if_pos hseen, List.append_nil]
    exact h
  · rw [if_neg hseen, if_neg hseen]
    cases hread : store.document (Location.normalize entry) with
    | error f => exact fun _ h => by cases h
    | ok root =>
      dsimp only
      cases henter : (p.discovery.ask (Location.normalize entry)).enter (Location.normalize entry) .entry root with
      | error f => exact fun _ h => by cases h
      | ok entered =>
        exact Accounts.read (r := .schema (Location.normalize entry))
          (Accounts.enter (d := p.discovery.ask (Location.normalize entry)) h henter) hread

/-- One step. -/
theorem Accounted.next {phase : Phase} (h : phase.Accounted store reads) :
    (phase.next store options).1.Accounted store (reads ++ (phase.next store options).2) := by
  match phase, h with
  | entering p [], h =>
    rw [Phase.next, List.append_nil]
    exact h
  | entering p (entry :: waiting), h => exact accounted_enterEntry h entry waiting
  | reading seen d (p :: queue) trees entries, h =>
    rw [Phase.next]
    split
    · rw [List.append_nil]
      exact h
    · cases hread : store.document p.location with
      | error f => exact Accounts.fail (r := .schema p.location) h hread
      | ok root =>
        exact Accounts.read (r := .schema p.location)
          (Accounts.enterPending (d := d.ask p.location) h p root) hread
  | reading seen d [] trees entries, h =>
    have hadded : Accounts store reads (d.addLinkbases trees).journal := Accounts.addLinkbases h trees
    rw [Phase.next]
    split
    · rw [List.append_nil]
      exact fun _ _ => hadded
    · exact hadded.takeLinkbases
  | ended d result, h =>
    rw [Phase.next, List.append_nil]
    exact h

/-- Any number of steps. -/
theorem Accounted.run {phase : Phase} (h : phase.Accounted store reads) (n : Nat) :
    (Phase.run store options n phase).1.Accounted store (reads ++ (Phase.run store options n phase).2) :=
  run_induction (P := fun phase reads => phase.Accounted store reads) Accounted.next n h

theorem accounted_start (entries : List String) {j : Journal} (h : Accounts store [] j) :
    (start entries { dts := {}, journal := j }).Accounted store [] := by
  unfold start
  split
  · exact fun _ h => by cases h
  · exact h

end Phase

/-- A location is read so often as a schema and so often as a linkbase. -/
theorem countP_location (reads : List Read) (l : String) : reads.countP (·.location == l) =
    (reads.filterMap Read.schema?).count l + (reads.filterMap Read.linkbase?).count l := by
  induction reads with
  | nil => rfl
  | cons r reads ih =>
    rw [List.countP_cons, ih]
    cases r with
    | schema m =>
      change _ = (m :: reads.filterMap Read.schema?).count l + (reads.filterMap Read.linkbase?).count l
      rw [List.count_cons]
      exact Nat.add_right_comm _ _ _
    | linkbase m =>
      change _ = (reads.filterMap Read.schema?).count l + (m :: reads.filterMap Read.linkbase?).count l
      rw [List.count_cons]
      exact Nat.add_assoc _ _ _

/-- The reports about a location that can be read are none, and about another as many as it was read. -/
theorem countP_failure? (reads : List Read) (l : String) :
    (reads.filterMap (failure? store)).countP (fun x => x.field? "document" == some l) =
      match store.document l with
      | .ok _ => 0
      | .error _ => reads.countP (·.location == l) := by
  have hcount (r : Read) : ((failure? store r).map fun x => x.field? "document" == some l).getD false =
      (!(store.document l).isOk && r.location == l) := by
    by_cases hl : r.location = l
    · subst hl
      unfold failure?
      cases store.document r.location with
      | ok root => simp [Except.isOk, Except.toBool]
      | error f => simp [Except.isOk, Except.toBool, field?_unreadable]
    · unfold failure?
      cases store.document r.location with
      | ok root => simp [hl]
      | error f => simp [hl, field?_unreadable]
  rw [List.countP_filterMap]
  simp only [hcount]
  cases store.document l with
  | ok root => exact List.countP_eq_zero.2 fun _ _ => nofun
  | error f => rfl

end Discovery

/-- A load that succeeds lists what was read, and reports what was found on the way and then what is missing in
the network. -/
theorem Session.load_eq_ok {s : Session} {store : Store} {options : Discovery.Options} {entries : List String}
    {receipt : Discovery.Receipt} (h : (s.load store options entries).2.2 = .ok receipt) :
    let found := (Discovery.load store options entries { dts := s.dts, journal := s.journal }).1
    (s.load store options entries).2.1 = found.asked ∧
      (s.load store options entries).1.journal = found.journal.report found.dts.index.diagnostics := by
  unfold Session.load at h ⊢
  split at h
  rename_i d result heq
  cases result with
  | error f => cases h
  | ok receipt =>
    rw [heq]
    exact ⟨rfl, rfl⟩

namespace Sample

/-- A schema that refers to a linkbase that is missing. -/
def incomplete : List (String × String) := [("a.xsd", annotatedSchema "" (linkbaseRef "l.xml"))]

set_option maxRecDepth 100000 in
/-- The linkbase is looked for and not found. -/
theorem load_incomplete :
    (∃ receipt, (Session.load {} (Shelf.ofTexts incomplete).store {} ["a.xsd"]).2.2 = .ok receipt) ∧
    (Session.load {} (Shelf.ofTexts incomplete).store {} ["a.xsd"]).2.1 = ["a.xsd", "l.xml"] ∧
    ∃ f, (Shelf.ofTexts incomplete).store.document "l.xml" = .error f := by
  have hplain : Plain (incomplete.map fun t => (t.1, t.2.toList)) := by
    unfold incomplete annotatedSchema linkbaseRef
    simp only [List.map_cons, List.map_nil]
    repeat rw [String.toList_append]
    repeat rw [String.toList_ofList]
    decide +kernel
  have hload : ∃ d receipt, Discovery.load (Shelf.ofTexts incomplete).store {} ["a.xsd"]
      { dts := ({} : Session).dts, journal := ({} : Session).journal } = (d, .ok receipt) ∧
      d.asked = ["a.xsd", "l.xml"] := by
    refine discover_ofTexts incomplete (fun d => d.asked = ["a.xsd", "l.xml"]) 5 hplain ?_
    unfold incomplete annotatedSchema linkbaseRef
    simp only [List.map_cons, List.map_nil]
    repeat rw [String.toList_append]
    repeat rw [String.toList_ofList]
    decide +kernel
  obtain ⟨d, receipt, hload, hasked⟩ := hload
  have hok : (Session.load {} (Shelf.ofTexts incomplete).store {} ["a.xsd"]).2.2 = .ok receipt :=
    (Session.load_eq ..).1.trans (congrArg Prod.snd hload)
  refine ⟨⟨receipt, hok⟩, ?_, .notFound "l.xml", ?_⟩
  · rw [(Session.load_eq_ok hok).1, hload]
    exact hasked
  · have hnone : (incomplete.map fun t => (t.1, t.2.toList)).find? (·.1 == Location.normalize "l.xml") = none :=
      List.find?_eq_none.2 (by decide +kernel)
    rw [Shelf.document_ofTexts hplain]
    unfold documentIn
    rw [hnone]
    rfl

end Sample

namespace Session

open Discovery

/-- Only entries end a load. It fails exactly if some entry cannot be read or is no schema, and then by a fault of
the configuration. Otherwise each document that could not be read is reported once for its reading as a schema and
once for its reading as a linkbase, in the order of these, and none that could be read is reported in this way. -/
theorem load_skips (store : Store) (options : Options) {entries : List String} (hne : entries ≠ []) :
    let loaded := Session.load {} store options entries
    let found := Discovery.load store options entries { dts := {}, journal := {} }
    ((∃ f, loaded.2.2 = .error f) ↔ ∃ e ∈ entries, ∀ root, store.document (Location.normalize e) = .ok root →
      root.isNamed Vocabulary.xmlSchema "schema" = false) ∧
    (∀ f, loaded.2.2 = .error f → f.family = .configuration) ∧
    ∀ receipt, loaded.2.2 = .ok receipt → ∃ n reads,
      (Phase.start entries { dts := {}, journal := {} }).run store options n = (.ended found.1 found.2, reads) ∧
      loaded.2.1 = reads.map Read.location ∧
      loaded.1.journal.entries.filter isSkip = reads.filterMap (failure? store) ∧
      ∀ l, (loaded.1.journal.entries.filter isSkip).countP (fun x => x.field? "document" == some l) =
        match store.document l with
        | .ok _ => 0
        | .error _ => (if .schema l ∈ reads then 1 else 0) + if .linkbase l ∈ reads then 1 else 0 := by
  intro loaded found
  have hresult : loaded.2.2 = found.2 := (load_eq {} store options entries).1
  refine ⟨?_, fun f hf => family_of_load (hresult ▸ hf), fun receipt hok => ?_⟩
  · rw [hresult]
    refine (load_eq_error_iff hne _).trans (exists_congr fun e => and_congr_right fun _ => ?_)
    exact Store.schema?_eq_none_iff
  · obtain ⟨n, hn⟩ : Phase.Reaches store options (Phase.start entries { dts := {}, journal := {} })
      (.ended found.1 found.2) := Phase.reaches_load entries _
    have htracked : (Phase.run store options n (Phase.start entries _)).1.Tracked options _ :=
      (Phase.tracked_start entries {}).run n
    have haccounted : (Phase.run store options n (Phase.start entries _)).1.Accounted store _ :=
      (Phase.accounted_start entries (j := {}) ⟨rfl, rfl⟩).run n
    rw [hn, List.nil_append] at htracked haccounted
    obtain ⟨_, _, htracked, -⟩ := htracked
    obtain ⟨hasked, hjournal⟩ := load_eq_ok hok
    -- references that do not resolve are reported under another code
    have hskips := ((haccounted receipt (hresult.symm.trans hok)).report
      (isSkip_of_within (Dts.within_index found.1.dts) (by decide))).skips
    have hcount (l : String) : (Phase.run store options n (Phase.start entries { dts := {}, journal := {} })).2.countP
        (·.location == l) = _ := countP_location _ l
    refine ⟨n, _, Prod.ext hn rfl, hasked.trans htracked.asked, hjournal ▸ hskips, fun l => ?_⟩
    rw [hjournal, hskips, countP_failure?]
    split
    · rfl
    · rw [hcount, htracked.schemas.count, htracked.linkbases.count]
      simp only [mem_filterMap_schema?, mem_filterMap_linkbase?]

/-- The one document that is missing is read once, and reported once. -/
theorem skips_incomplete : ["a.xsd"] ≠ [] ∧
    let loaded := Session.load {} (Shelf.ofTexts Sample.incomplete).store {} ["a.xsd"]
    (∃ receipt, loaded.2.2 = .ok receipt) ∧
      (loaded.1.journal.entries.filter isSkip).countP (fun x => x.field? "document" == some "l.xml") = 1 := by
  obtain ⟨⟨receipt, hok⟩, hasked, f, hmissing⟩ := Sample.load_incomplete
  refine ⟨List.cons_ne_nil _ _, ⟨receipt, hok⟩, ?_⟩
  obtain ⟨-, -, hreads⟩ := load_skips (Shelf.ofTexts Sample.incomplete).store {} (List.cons_ne_nil "a.xsd" [])
  obtain ⟨n, reads, -, hlocations, -, hcount⟩ := hreads receipt hok
  rw [hcount, hmissing]
  rw [hasked] at hlocations
  obtain ⟨first, rest, rfl, hfirst, hrest⟩ := List.map_eq_cons_iff.1 hlocations.symm
  obtain ⟨second, rfl, hsecond⟩ := List.map_eq_singleton_iff.1 hrest
  -- it was read either as a schema or as a linkbase
  cases first <;> cases second <;> cases hfirst <;> cases hsecond <;> simp

end Session

end TaxonomySet
