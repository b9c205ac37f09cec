import TaxonomySet.Proofs.Discovery.Running
import TaxonomySet.Proofs.Location

namespace TaxonomySet

namespace Discovery

theorem recordLocations_congr {d d' : Discovery} (hdts : d'.dts = d.dts) : d'.recordLocations = d.recordLocations := by
  unfold recordLocations
  rw [hdts]

/-- What holds of the locations that a discovery has noted. Only records that were there before, at the locations
`old`, may have others than normal ones. -/
structure Normal (old : List String) (seen : SortedSet String) (d : Discovery) : Prop where
  seen : ∀ l ∈ seen, Location.normalize l = l
  records : ∀ l ∈ d.recordLocations, Location.normalize l = l ∨ l ∈ old
  loaded : ∀ l ∈ d.loaded, Location.normalize l = l ∨ l ∈ old

namespace Normal

variable {old : List String} {seen : SortedSet String} {d d' : Discovery}

theorem start (dts : Dts) (journal : Journal) :
    Normal ({ dts := dts, journal := journal } : Discovery).recordLocations ∅ { dts := dts, journal := journal } where
  seen _ hl := by cases hl
  records _ hl := .inr hl
  loaded _ hl := by cases hl

/-- What a discovery notes besides does not matter. -/
theorem congr (h : Normal old seen d) (hrecords : d'.recordLocations = d.recordLocations)
    (hloaded : d'.loaded = d.loaded) : Normal old seen d' :=
  ⟨h.seen, hrecords ▸ h.records, hloaded ▸ h.loaded⟩

theorem insert (h : Normal old seen d) {location : String} (hnormal : Location.normalize location = location) :
    Normal old (seen.insert location) d := by
  refine ⟨fun l hl => ?_, h.records, h.loaded⟩
  rcases SortedSet.mem_insert.1 hl with rfl | hl
  · exact hnormal
  · exact h.seen l hl

/-- A document that is taken in adds records of normal locations. -/
theorem enter (h : Normal old seen d) {location : String} (hnormal : Location.normalize location = location)
    {origin : Origin} {root : Markup.Node} {i : Nat} {more : List Pending}
    (henter : d.enter location origin root = .ok (d', i, more)) : Normal old (seen.insert location) d' := by
  refine ⟨(h.insert hnormal).seen, fun l hl => ?_, (links_of_enter henter).2 ▸ h.loaded⟩
  obtain ⟨j, k, r, hr, rfl⟩ := mem_recordLocations.1 hl
  rcases record?_of_enter henter hnormal hr with hr | ⟨-, -, hr, -⟩
  · exact h.records _ (mem_recordLocations.2 ⟨j, k, r, hr, rfl⟩)
  · exact .inl hr

/-- Linkbases are taken at the locations of records. -/
theorem takeLinkbases (h : Normal old seen d) (store : Store) : Normal old seen (d.takeLinkbases store).1 := by
  obtain ⟨hdts, -, hloaded⟩ := takeLinkbases_fst store d
  refine ⟨h.seen, recordLocations_congr hdts ▸ h.records, fun l hl => ?_⟩
  rw [hloaded] at hl
  rcases SortedSet.mem_insertAll.1 hl with hl | hl
  · obtain ⟨p, hp, rfl⟩ := List.mem_map.1 hl
    obtain ⟨⟨i, j, r, hr, hlocation, -⟩, -⟩ := exists_record?_of_mem_unloaded hp
    exact h.records _ (mem_recordLocations.2 ⟨i, j, r, hr, hlocation⟩)
  · exact h.loaded l hl

end Normal

theorem stable_normal (store : Store) (old : List String) : Stable store fun seen _ d => Normal old seen d where
  skip h _ := h
  leave {seen p queue d d'} h _ _ hdts hloaded _ := (h.insert p.isNormal).congr (recordLocations_congr hdts) hloaded
  enter {seen p queue d d' i more root} h _ _ henter := by
    have hasked : Normal old seen (d.ask p.location) := h.congr rfl rfl
    exact hasked.enter p.isNormal henter
  main _ h := h.congr rfl rfl

namespace Phase

/-- The schemas that have been seen. They are forgotten at the end. -/
def seen : Phase → SortedSet String
  | entering p _ => p.seen
  | reading seen _ _ _ _ => seen
  | ended _ _ => ∅

/-- What has been discovered. -/
def discovery : Phase → Discovery
  | entering p _ => p.discovery
  | reading _ d _ _ _ => d
  | ended d _ => d

variable {store : Store} {options : Options} {old : List String}

/-- One step. -/
theorem normal_next {phase : Phase} (h : Discovery.Normal old phase.seen phase.discovery) :
    Discovery.Normal old (phase.next store options).1.seen (phase.next store options).1.discovery := by
  have hstable := stable_normal store old
  match phase, h with
  | entering p [], h => exact h.congr rfl rfl
  | entering p (entry :: waiting), h =>
    have hentered : Discovery.Normal old (enterEntry store p entry).1.seen (enterEntry store p entry).1.discovery :=
      hstable.enterEntry h
    rw [Phase.next]
    dsimp only
    split
    · rename_i heq
      rw [heq] at hentered
      exact hentered
    · rename_i heq
      rw [heq] at hentered
      exact ⟨fun _ hl => (by cases hl), hentered.records, hentered.loaded⟩
  | reading seen d (p :: queue) trees entries, h =>
    rw [Phase.next]
    split
    · exact h
    · rename_i hfresh
      rw [Bool.not_eq_true] at hfresh
      split
      · exact (h.insert p.isNormal).congr rfl rfl
      · rename_i root hread
        exact hstable.enterPending queue h hfresh hread
  | reading seen d [] trees entries, h =>
    obtain ⟨hloaded, hrecords⟩ := addLinkbases_loaded d trees
    have hadded : Discovery.Normal old seen (d.addLinkbases trees) := h.congr hrecords hloaded
    rw [Phase.next]
    split
    · exact ⟨fun _ hl => (by cases hl), hadded.records, hadded.loaded⟩
    · exact hadded.takeLinkbases store
  | ended d result, h => exact h

theorem normal_start (entries : List String) (dts : Dts) (journal : Journal) :
    let d : Discovery := { dts := dts, journal := journal }
    Discovery.Normal d.recordLocations (start entries d).seen (start entries d).discovery := by
  intro d
  unfold start
  split <;> exact .start dts journal

/-- Any number of steps. -/
theorem normal_run (store : Store) (options : Options) {phase : Phase}
    (h : Discovery.Normal old phase.seen phase.discovery) (n : Nat) :
    Discovery.Normal old (phase.run store options n).1.seen (phase.run store options n).1.discovery :=
  @run_induction store options (fun phase _ => Discovery.Normal old phase.seen phase.discovery) normal_next n phase [] h

end Phase

/-- Locations have a canonical form. Normalization keeps the scheme and the authority of a location and makes its path
canonical; the path begins at the root exactly if it did before. A second normalization changes nothing. So after any
number of steps of a load, normalizing the locations of the schemas that have been seen leaves them as they are, and so
it does with the linkbases that have been taken, except where a taxonomy named one otherwise before the load. -/
theorem normalize_canonical :
    (∀ s : String, ∃ authority path path', Location.Parts s.toList authority path ∧
      Location.Parts (Location.normalize s).toList authority path' ∧ Location.IsCanonical path' ∧
      Location.isAbsolute path' = Location.isAbsolute path ∧
      Location.normalize (Location.normalize s) = Location.normalize s) ∧
    ∀ (store : Store) (options : Options) (entries : List String) (dts : Dts) (journal : Journal) (n : Nat),
      let d : Discovery := { dts := dts, journal := journal }
      let phase := ((Phase.start entries d).run store options n).1
      let taken := phase.discovery.loaded.toList.filter fun l => l ∉ d.recordLocations
      phase.seen.toList.map Location.normalize = phase.seen.toList ∧ taken.map Location.normalize = taken := by
  refine ⟨fun s => ?_, fun store options entries dts journal n => ?_⟩
  · obtain ⟨authority, path, path', hparts, hparts', hcanonical, habsolute⟩ := Location.exists_parts_normalize s
    exact ⟨authority, path, path', hparts, hparts', hcanonical, habsolute, Location.normalize_normalize s⟩
  · have hnormal := Phase.normal_run store options (Phase.normal_start entries dts journal) n
    have hfixed {ls : List String} (h : ∀ l ∈ ls, Location.normalize l = l) : ls.map Location.normalize = ls :=
      (List.map_congr_left h).trans (List.map_id ls)
    refine ⟨hfixed fun l hl => hnormal.seen l (SortedSet.mem_toList.1 hl), hfixed fun l hl => ?_⟩
    obtain ⟨hl, hnew⟩ := List.mem_filter.1 hl
    exact (hnormal.loaded l (SortedSet.mem_toList.1 hl)).resolve_right (of_decide_eq_true hnew)

end Discovery

end TaxonomySet
