import TaxonomySet.Discovery.State

namespace TaxonomySet.Discovery

/-- The locations that can be read and have not been seen as schemas. They become fewer with each schema, and a round
without a new schema is the last one, so discovery ends. -/
def unseen (store : Store) (seen : SortedSet String) : List String :=
  store.locations.filter fun l => !seen.contains l

theorem contains_insert_of_contains {seen : SortedSet String} {l m : String}
    (h : seen.contains m = true) : (seen.insert l).contains m = true := by
  simp [SortedSet.contains_insert, h]

theorem length_unseen_insert_le (store : Store) (seen : SortedSet String) (l : String) :
    (unseen store (seen.insert l)).length ≤ (unseen store seen).length := by
  unfold unseen
  rw [← List.countP_eq_length_filter, ← List.countP_eq_length_filter]
  apply List.countP_mono_left
  intro m _ hm
  by_cases h : seen.contains m = true
  · simp [contains_insert_of_contains h] at hm
  · simpa using h

theorem length_unseen_insert_lt {store : Store} {seen : SortedSet String} {l : String}
    (hmem : l ∈ store.locations) (hnew : seen.contains l = false) :
    (unseen store (seen.insert l)).length < (unseen store seen).length := by
  have hsub : (unseen store (seen.insert l)) = (unseen store seen).filter fun m => !(m == l) := by
    unfold unseen
    rw [List.filter_filter]
    congr 1
    funext m
    rw [SortedSet.contains_insert]
    by_cases h : m = l
    · subst h
      simp
    · have : compare m l ≠ .eq := fun h' => h (Std.LawfulEqCmp.eq_of_compare h')
      cases hc : compare m l <;> simp_all
  rw [hsub]
  apply List.length_filter_lt_length_iff_exists.2
  exact ⟨l, by simp [unseen, hmem, hnew], by simp⟩

/-- Reads pending schemas, and those that they name in turn, until none is pending. -/
def drain (store : Store) (seen : SortedSet String) (d : Discovery) :
    (queue : List Pending) → SortedSet String × Discovery
  | [] => (seen, d)
  | p :: queue =>
    if _hseen : seen.contains p.location = true then drain store seen d queue
    else match _hread : store.document p.location with
      | .error f =>
        drain store (seen.insert p.location)
          ((d.ask p.location).report [unreadable p.location f]) queue
      | .ok root =>
        let entered := (d.ask p.location).enterPending p root
        drain store (seen.insert p.location) entered.1 (queue ++ entered.2)
termination_by queue => ((unseen store seen).length, queue.length)
decreasing_by
  · apply Prod.Lex.right
    simp
  · rcases Nat.lt_or_eq_of_le (length_unseen_insert_le store seen p.location) with h | h
    · exact Prod.Lex.left _ _ h
    · rw [h]
      apply Prod.Lex.right
      simp
  · apply Prod.Lex.left
    exact length_unseen_insert_lt (Store.mem_locations_of_document p.isNormal _hread)
      (by simpa using _hseen)

/-- Unless a schema is read on the way, pending schemas change nothing about the linkbases. -/
theorem drain_fixed (store : Store) (seen : SortedSet String) (d : Discovery) (queue : List Pending) :
    (unseen store (drain store seen d queue).1).length < (unseen store seen).length ∨
      (unseen store (drain store seen d queue).1).length = (unseen store seen).length ∧
        (drain store seen d queue).2.dts = d.dts ∧ (drain store seen d queue).2.loaded = d.loaded := by
  fun_induction drain store seen d queue with
  | case1 => exact .inr ⟨rfl, rfl, rfl⟩
  | case2 seen d p queue hseen ih => exact ih
  | case3 seen d p queue hseen f hread ih =>
    have := length_unseen_insert_le store seen p.location
    rcases ih with h | ⟨h, hd, hl⟩
    · exact .inl (by omega)
    · rcases Nat.lt_or_eq_of_le this with hlt | heq
      · exact .inl (by omega)
      · exact .inr ⟨by omega, hd, hl⟩
  | case4 seen d p queue hseen root hread entered ih =>
    have := length_unseen_insert_lt (Store.mem_locations_of_document p.isNormal hread)
      (show seen.contains p.location = false by simpa using hseen)
    exact .inl (by omega)

/-- The locations of all records. -/
def recordLocations (d : Discovery) : List String :=
  d.dts.taxonomies.flatMap fun t => t.linkbases.map (·.location)

theorem readTree_dts (store : Store) (d : Discovery) (location : String) (embedded : Bool) :
    (d.readTree store location embedded).1.dts = d.dts ∧
      (d.readTree store location embedded).1.loaded = d.loaded := by
  unfold readTree
  split
  · exact ⟨rfl, rfl⟩
  · split <;> exact ⟨rfl, rfl⟩

theorem readTrees_dts (store : Store) (d : Discovery) (pending : List (String × Bool)) :
    (d.readTrees store pending).1.dts = d.dts ∧ (d.readTrees store pending).1.loaded = d.loaded := by
  induction pending generalizing d with
  | nil => exact ⟨rfl, rfl⟩
  | cons p rest ih =>
    obtain ⟨location, embedded⟩ := p
    obtain ⟨h₁, h₂⟩ := readTree_dts store d location embedded
    obtain ⟨h₃, h₄⟩ := ih (d.readTree store location embedded).1
    exact ⟨h₃.trans h₁, h₄.trans h₂⟩

theorem addLinkbase_loaded (d : Discovery) (linkbase : String × Markup.Node) :
    (d.addLinkbase linkbase).loaded = d.loaded ∧
      (d.addLinkbase linkbase).recordLocations = d.recordLocations := by
  refine ⟨rfl, ?_⟩
  simp only [recordLocations, addLinkbase, report, Dts.addLinkbase, Dts.addLinks, List.flatMap_map]
  congr 1
  funext t
  simp only [Taxonomy.attach, List.map_map]
  congr 1
  funext r
  simp only [Function.comp_apply]
  split <;> rfl

theorem addLinkbases_loaded (d : Discovery) (linkbases : List (String × Markup.Node)) :
    (d.addLinkbases linkbases).loaded = d.loaded ∧
      (d.addLinkbases linkbases).recordLocations = d.recordLocations := by
  induction linkbases generalizing d with
  | nil => exact ⟨rfl, rfl⟩
  | cons l rest ih =>
    obtain ⟨h₁, h₂⟩ := ih (d.addLinkbase l)
    obtain ⟨h₃, h₄⟩ := addLinkbase_loaded d l
    exact ⟨h₁.trans h₃, h₂.trans h₄⟩

theorem mem_eraseDupsBy_fst {es : List (String × Bool)} {l : String}
    (h : l ∈ es.map (·.1)) : l ∈ (es.eraseDupsBy fun a b => a.1 == b.1).map (·.1) := by
  suffices ∀ (es bs : List (String × Bool)), (l ∈ es.map (·.1) ∨ l ∈ bs.map (·.1)) →
      l ∈ (List.eraseDupsBy.loop (fun a b => a.1 == b.1) es bs).map (·.1) from
    this es [] (.inl h)
  intro es
  induction es with
  | nil =>
    intro bs h
    simp only [List.map_nil, List.not_mem_nil, false_or] at h
    simpa [List.eraseDupsBy.loop] using h
  | cons e es ih =>
    intro bs h
    unfold List.eraseDupsBy.loop
    split
    · rename_i hany
      apply ih
      rcases h with h | h
      · rcases List.mem_cons.1 h with rfl | h
        · obtain ⟨b, hb, heq⟩ := List.any_eq_true.1 hany
          exact .inr (List.mem_map.2 ⟨b, hb, (beq_iff_eq.1 heq).symm⟩)
        · exact .inl h
      · exact .inr h
    · apply ih
      rcases h with h | h
      · rcases List.mem_cons.1 h with rfl | h
        · exact .inr (by simp)
        · exact .inl h
      · exact .inr (by simp_all)

theorem unloaded_eq_nil {d : Discovery} (h : ∀ l ∈ d.recordLocations, d.loaded.contains l = true) :
    d.unloaded = [] := by
  have : (d.dts.taxonomies.flatMap fun t => t.linkbases.map fun r => (r.location, r.embedded)).filter
      (fun r => !d.loaded.contains r.1) = [] := by
    apply List.filter_eq_nil_iff.2
    intro r hr
    obtain ⟨t, ht, hr⟩ := List.mem_flatMap.1 hr
    obtain ⟨record, hrecord, rfl⟩ := List.mem_map.1 hr
    have := h record.location
      (List.mem_flatMap.2 ⟨t, ht, List.mem_map.2 ⟨record, hrecord, rfl⟩⟩)
    simp [this]
  simp [unloaded, this, List.eraseDupsBy, List.eraseDupsBy.loop]

theorem takeLinkbases_loaded (store : Store) (d : Discovery) :
    (d.takeLinkbases store).1.dts = d.dts ∧
      ∀ l ∈ d.recordLocations, (d.takeLinkbases store).1.loaded.contains l = true := by
  obtain ⟨h₁, h₂⟩ := readTrees_dts store
    { d with loaded := d.loaded.insertAll (d.unloaded.map (·.1)) } d.unloaded
  refine ⟨h₁, fun l hl => ?_⟩
  rw [takeLinkbases, h₂, SortedSet.contains_insertAll]
  by_cases hloaded : d.loaded.contains l = true
  · simp [hloaded]
  · have : l ∈ d.unloaded.map (·.1) := by
      apply mem_eraseDupsBy_fst
      obtain ⟨t, ht, hl⟩ := List.mem_flatMap.1 hl
      obtain ⟨record, hrecord, rfl⟩ := List.mem_map.1 hl
      refine List.mem_map.2 ⟨(record.location, record.embedded), List.mem_filter.2 ⟨?_, ?_⟩, rfl⟩
      · exact List.mem_flatMap.2 ⟨t, ht, List.mem_map.2 ⟨record, hrecord, rfl⟩⟩
      · simpa using hloaded
    have : (d.unloaded.map (·.1)).any (fun k => compare l k == .eq) = true :=
      List.any_eq_true.2 ⟨l, this, by simp⟩
    simp [this]

/-- One round: all linkbases not taken yet, and before their links are read the schemas that they
refer to, if `locators` is set. Roles that these declare can then be used by the links. -/
def round (store : Store) (locators : Bool) (seen : SortedSet String) (d : Discovery) :
    SortedSet String × Discovery :=
  let taken := d.takeLinkbases store
  let drained := drain store seen taken.1 (if locators then taken.1.targets seen taken.2 else [])
  (drained.1, drained.2.addLinkbases taken.2)

theorem round_fixed (store : Store) (locators : Bool) (seen : SortedSet String) (d : Discovery) :
    (unseen store (round store locators seen d).1).length < (unseen store seen).length ∨
      (unseen store (round store locators seen d).1).length = (unseen store seen).length ∧
        (round store locators seen d).2.unloaded = [] := by
  simp only [round]
  generalize (if locators = true then _ else _ : List Pending) = queue
  obtain ⟨hsame, hall⟩ := takeLinkbases_loaded store d
  rcases drain_fixed store seen (d.takeLinkbases store).1 queue with h | ⟨h, hdts, hloaded⟩
  · exact .inl h
  · refine .inr ⟨h, unloaded_eq_nil ?_⟩
    obtain ⟨h₁, h₂⟩ := addLinkbases_loaded (drain store seen (d.takeLinkbases store).1 queue).2
      (d.takeLinkbases store).2
    rw [h₁, h₂, hloaded]
    intro l hl
    apply hall
    simpa only [recordLocations, hdts, hsame] using hl

/-- After a round fewer locations are unseen, or as many and no linkbase is left. -/
theorem round_lex (store : Store) (locators : Bool) (seen : SortedSet String) {d : Discovery} (h : d.unloaded ≠ []) :
    Prod.Lex (· < ·) (· < ·)
      ((unseen store (round store locators seen d).1).length, (round store locators seen d).2.unloaded.length)
      ((unseen store seen).length, d.unloaded.length) := by
  rcases round_fixed store locators seen d with hfewer | ⟨hsame, hnil⟩
  · exact Prod.Lex.left _ _ hfewer
  · rw [hsame, hnil]
    exact Prod.Lex.right _ (List.length_pos_iff.2 h)

/-- Rounds until there are no more linkbases to take. -/
def rounds (store : Store) (locators : Bool) (seen : SortedSet String) (d : Discovery) :
    SortedSet String × Discovery :=
  if _hpending : d.unloaded = [] then (seen, d)
  else
    let next := round store locators seen d
    rounds store locators next.1 next.2
termination_by ((unseen store seen).length, d.unloaded.length)
decreasing_by exact round_lex store locators seen _hpending

/-- What a load takes in besides the schemas that are named by others. -/
structure Options where
  linkbases : Bool := true
  locators : Bool := true

/-- A load under way: the schemas seen and pending, and the taxonomies of the entries. -/
structure Progress where
  seen : SortedSet String := ∅
  discovery : Discovery
  queue : List Pending := []
  entries : List Nat := []

/-- Reads an entry. Only an entry has to be a schema that can be read. -/
def enterEntry (store : Store) (p : Progress) (entry : String) : Progress × Option Fault :=
  let location := Location.normalize entry
  if p.seen.contains location then
    ({ p with entries := p.entries ++ (p.discovery.dts.byLocation.get? location).toList }, none)
  else
    let p := { p with seen := p.seen.insert location, discovery := p.discovery.ask location }
    match store.document location with
    | .error f => (p, some (.entryUnreadable location f))
    | .ok root =>
      match p.discovery.enter location .entry root with
      | .error f => (p, some (.entryNotSchema location (.document location f)))
      | .ok (d, taxonomy, more) =>
        ({ p with discovery := d, queue := p.queue ++ more, entries := p.entries ++ [taxonomy] }, none)

/-- Reads entries up to the first that fails. -/
def enterEntries (store : Store) (p : Progress) : List String → Progress × Option Fault
  | [] => (p, none)
  | entry :: rest =>
    match enterEntry store p entry with
    | (p, some f) => (p, some f)
    | (p, none) => enterEntries store p rest

/-- What a load has read. -/
structure Receipt where
  entries : List Nat
  schemas : Nat
  linkbases : Nat
deriving DecidableEq, Repr

/-- Names the taxonomy of the first entry as the main one, unless there is one already. -/
def nameMain (d : Discovery) (entries : List Nat) : Discovery :=
  let main := (entries.head?.bind (d.dts.taxonomies[·]?)).map (·.ns)
  { d with dts := { d.dts with mainNamespace := d.dts.mainNamespace.or main } }

/-- Discovers all that belongs to the set of some entries. A fault leaves what was found until
then. -/
def load (store : Store) (options : Options) (entries : List String) (d : Discovery) :
    Discovery × Except Fault Receipt :=
  if entries.isEmpty then (d, .error .noEntries)
  else
    match enterEntries store { discovery := d } entries with
    | (p, some f) => (p.discovery, .error f)
    | (p, none) =>
      let drained := drain store p.seen (p.discovery.nameMain p.entries) p.queue
      let (seen, d) := if options.linkbases then rounds store options.locators drained.1 drained.2
        else drained
      (d, .ok ⟨p.entries, seen.size, d.loaded.size⟩)

end TaxonomySet.Discovery
