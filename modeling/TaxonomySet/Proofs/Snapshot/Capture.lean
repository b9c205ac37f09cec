import TaxonomySet.Proofs.Discovery.Evaluation
import TaxonomySet.Proofs.Snapshot.Layering

namespace TaxonomySet

namespace Dts

/-- A set whose look-ups fit its taxonomies is determined by what it holds, as long as no document is
shared by taxonomies. -/
theorem Consistent.eq_of_indexed {d e : Dts} (hd : d.Consistent) (he : e.Indexed)
    (htaxonomies : e.taxonomies = d.taxonomies) (hregistry : e.registry = d.registry) (hlinks : e.links = d.links)
    (hresources : e.resources = d.resources) (hmain : e.mainNamespace = d.mainNamespace) : e = d := by
  have hnamespace : e.byNamespace = d.byNamespace := by
    apply SortedMap.ext_get?
    intro ns
    apply Option.ext
    intro i
    rw [he.byNamespace, hd.byNamespace, htaxonomies]
  have hlocation : e.byLocation = d.byLocation := by
    apply SortedMap.ext_get?
    intro l
    cases hl : e.byLocation.get? l with
    | some i =>
      obtain ⟨t, ht, hmem⟩ := he.byLocation hl
      rw [htaxonomies] at ht
      exact (hd.own ht hmem).symm
    | none =>
      -- a document that `d` knows belongs to one of the taxonomies, so that `e` knows it as well
      cases hl' : d.byLocation.get? l with
      | none => rfl
      | some i =>
        obtain ⟨t, ht, hmem⟩ := hd.byLocation hl'
        rw [← htaxonomies] at ht
        obtain ⟨j, hj⟩ := he.located (List.mem_of_getElem? ht) hmem
        rw [hl] at hj
        cases hj
  cases d
  cases e
  cases htaxonomies
  cases hregistry
  cases hlinks
  cases hresources
  cases hmain
  cases hnamespace
  cases hlocation
  rfl

end Dts

namespace Session

/-- A load that succeeds keeps no answers. -/
theorem answers_load {s : Session} {store : Store} {options : Discovery.Options} {entries : List String}
    {receipt : Discovery.Receipt} (h : (s.load store options entries).2.2 = .ok receipt) :
    (s.load store options entries).1.trees = {} ∧ (s.load store options entries).1.labels = {} := by
  unfold load at h ⊢
  split at h
  rename_i d result heq
  cases result with
  | error => cases h
  | ok => exact ⟨rfl, rfl⟩

end Session

namespace Snapshot

/-- The contents of a consistent set make the same set again. -/
theorem populate_capture {d : Dts} (h : d.Consistent) (created : String) :
    { (populate (capture d created) {}).value with mainNamespace := d.mainNamespace } = d := by
  obtain ⟨hindexed, htaxonomies, hregistry, hlinks, hresources⟩ := value_populate_capture h created
  apply h.eq_of_indexed
  · exact ⟨hindexed.byNamespace, hindexed.byLocation, hindexed.located⟩
  · exact htaxonomies
  · exact hregistry
  · exact hlinks
  · exact hresources.trans h.resources_eq.symm
  · rfl

/-- A snapshot of a consistent set restores the set, and derives from it what there is to derive. -/
theorem exists_restore_capture {d : Dts} (h : d.Consistent) (created : String) (journal : Journal) :
    ∃ journal', restore (capture d created) journal = .ok { dts := d, journal := journal' : Session }.finalize := by
  have hpopulated := populate_capture h created
  refine ⟨journal.report (populate (capture d created) {}).diagnostics, ?_⟩
  change Except.ok (Session.finalize {
    dts := { (populate (capture d created) {}).value with mainNamespace := d.mainNamespace }
    journal := journal.report ([] ++ (populate (capture d created) {}).diagnostics) }) = _
  rw [hpopulated, List.nil_append]

/-- A snapshot of what was loaded from nothing can be restored, and the session is then as it was after the
load, but for the journal: it has the same set, with the same numbers of taxonomies and links, and the same
index. -/
theorem restore_capture_of_load (store : Store) (options : Discovery.Options) (entries : List String)
    (journal restoreJournal : Journal) (created : String) {receipt : Discovery.Receipt}
    (hload : (Session.load { journal := journal } store options entries).2.2 = .ok receipt) :
    let s := (Session.load { journal := journal } store options entries).1
    ∃ r, restore (capture s.dts created) restoreJournal = .ok r ∧ r = { s with journal := r.journal } := by
  intro s
  have hindex : s.index = s.dts.index.value := Session.index_load hload
  obtain ⟨htrees, hlabels⟩ : s.trees = {} ∧ s.labels = {} := Session.answers_load hload
  obtain ⟨restored, hrestored⟩ := exists_restore_capture
    (Session.consistent_load store options entries journal) created restoreJournal
  refine ⟨_, hrestored, ?_⟩
  rw [hindex, htrees, hlabels]
  rfl

theorem restore_capture_infinite :
    ∃ receipt, (Session.load {} (Sample.orderingStore "INF") {} ["schema.xsd"]).2.2 = .ok receipt ∧
      ∃ r, restore (capture (Session.load {} (Sample.orderingStore "INF") {} ["schema.xsd"]).1.dts "") {} = .ok r ∧
        r = { (Session.load {} (Sample.orderingStore "INF") {} ["schema.xsd"]).1 with journal := r.journal } := by
  obtain ⟨⟨receipt, hload⟩, -⟩ := Sample.load_infinite
  exact ⟨receipt, hload, restore_capture_of_load (Sample.orderingStore "INF") {} ["schema.xsd"] {} {} "" hload⟩

end Snapshot

end TaxonomySet
