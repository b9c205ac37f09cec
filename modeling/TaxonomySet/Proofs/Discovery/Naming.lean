import TaxonomySet.Proofs.Discovery.Records

namespace TaxonomySet

/-- Whether an item names a schema at a location. -/
def Schema.Item.Names (location : String) : Schema.Item → Prop
  | importing i => i.location = location
  | including l => l = location
  | _ => False

/-- The schemas that a schema names have normal locations. -/
theorem Schema.normalize_named {location : String} {adopted : Option String} {root : Markup.Node} {s : Schema}
    {ds : List Diagnostic} (h : Schema.read location adopted root = .ok ⟨s, ds⟩) {l : String}
    (hl : (∃ i ∈ s.imports, i.location = l) ∨ l ∈ s.includes) : Location.normalize l = l := by
  obtain ⟨items, hs, hstems⟩ := exists_stems_of_read h
  rw [hs] at hl
  have hitem : ∃ item ∈ items, item.Names l := by
    rcases hl with ⟨i, hi, rfl⟩ | hl
    · obtain ⟨item, hitem, hvalue⟩ := List.mem_filterMap.1 hi
      cases item <;> cases hvalue
      exact ⟨_, hitem, rfl⟩
    · obtain ⟨item, hitem, hvalue⟩ := List.mem_filterMap.1 hl
      cases item <;> cases hvalue
      exact ⟨_, hitem, rfl⟩
  obtain ⟨item, hitem, hnames⟩ := hitem
  obtain ⟨n, -, hstem⟩ := hstems _ hitem
  cases hstem with
  | importing hnormal => exact hnames ▸ hnormal
  | including hnormal => exact hnames ▸ hnormal
  | element => cases hnames
  | typeDef => cases hnames
  | noting hinforms => cases hinforms <;> cases hnames

/-- Whether the schemas of a taxonomy import or include a location. -/
def Taxonomy.Names (t : Taxonomy) (l : String) : Prop := l ∈ t.imports ∨ l ∈ t.includes

/-- A schema that joins a taxonomy adds all that it imports or includes. -/
theorem Taxonomy.names_addSchema {t : Taxonomy} {s : Schema} {l : String} : (t.addSchema s).value.Names l ↔
    t.Names l ∨ (∃ i ∈ s.imports, i.location = l) ∨ l ∈ s.includes := by
  unfold Names
  rw [imports_addSchema, includes_addSchema, SortedSet.mem_insertAll, SortedSet.mem_insertAll, List.mem_map,
    or_or_or_comm, or_comm]

namespace Discovery

/-- Whether the schemas of the taxonomies import or include a location. -/
def Names (d : Discovery) (l : String) : Prop := ∃ t ∈ d.dts.taxonomies, t.Names l

theorem names_of_modify {ts : List Taxonomy} {i : Nat} {f : Taxonomy → Taxonomy} {l : String}
    (h : ∃ t ∈ ts.modify i f, t.Names l) : ∃ t ∈ ts, t.Names l ∨ (f t).Names l := by
  obtain ⟨t, ht, hnames⟩ := h
  obtain ⟨j, hj⟩ := List.mem_iff_getElem?.1 ht
  rw [List.getElem?_modify] at hj
  obtain ⟨u, hu, rfl⟩ := Option.map_eq_some_iff.1 hj
  refine ⟨u, List.mem_of_getElem? hu, ?_⟩
  split at hnames
  · exact .inr hnames
  · exact .inl hnames

theorem exists_mem_pendingOf {s : Schema} {location : String} {adopted : Option String} {root : Markup.Node}
    {ds : List Diagnostic} (hread : Schema.read location adopted root = .ok ⟨s, ds⟩) (taxonomy : Nat) {l : String}
    (h : (∃ i ∈ s.imports, i.location = l) ∨ l ∈ s.includes) : ∃ q ∈ pendingOf s taxonomy, q.location = l := by
  have hnormal := Schema.normalize_named hread h
  rcases h with ⟨i, hi, rfl⟩ | h
  · exact ⟨_, List.mem_append_left _ (List.mem_map.2 ⟨i, hi, rfl⟩), hnormal⟩
  · exact ⟨_, List.mem_append_right _ (List.mem_map.2 ⟨l, h, rfl⟩), hnormal⟩

theorem names_of_addSchema {d : Discovery} {taxonomy : Nat} {s : Schema} {root : Markup.Node} {l : String}
    (h : (d.addSchema taxonomy s root).Names l) : d.Names l ∨ (∃ i ∈ s.imports, i.location = l) ∨ l ∈ s.includes := by
  unfold Names at h
  rw [addSchema_dts] at h
  obtain ⟨t, ht, hnames | hnames⟩ := names_of_modify h
  · exact .inl ⟨t, ht, hnames⟩
  · exact (Taxonomy.names_addSchema.1 hnames).imp_left fun hnames => ⟨t, ht, hnames⟩

/-- What a taxonomy names after a document was taken in it named before, or is pending. -/
theorem names_of_enter {d d' : Discovery} {location : String} {origin : Origin} {root : Markup.Node} {i : Nat}
    {more : List Pending} (henter : d.enter location origin root = .ok (d', i, more)) {l : String} (h : d'.Names l) :
    d.Names l ∨ ∃ q ∈ more, q.location = l := by
  have hregistered {l : String} (h : ({ d with dts := d.dts.registerLocation location i } : Discovery).Names l) :
      d.Names l := by
    obtain ⟨t, ht, hnames | hnames⟩ := names_of_modify h
    · exact ⟨t, ht, hnames⟩
    · exact ⟨t, ht, hnames⟩
  obtain ⟨_, s, ds, hread, -, ⟨rfl, -, rfl⟩ | ⟨rfl, -, rfl⟩ | ⟨rfl, -, -, rfl⟩⟩ := enter_cases henter
  · exact (names_of_addSchema h).imp hregistered (exists_mem_pendingOf hread i)
  · exact .inl (hregistered h)
  · refine (names_of_addSchema h).imp (fun ⟨t, ht, hnames⟩ => ?_) (exists_mem_pendingOf hread i)
    rcases List.mem_append.1 ht with ht | ht
    · exact ⟨t, ht, hnames⟩
    · -- a taxonomy starts without names
      rw [List.mem_singleton.1 ht] at hnames
      rcases hnames with hnames | hnames <;> cases hnames

theorem names_of_addLinkbases {d : Discovery} {linkbases : List (String × Markup.Node)} {l : String}
    (h : (d.addLinkbases linkbases).Names l) : d.Names l := by
  refine List.foldlRecOn (motive := fun e : Discovery => e.Names l → d.Names l) linkbases addLinkbase id
    (fun e he linkbase _ hnames => ?_) h
  obtain ⟨t, ht, hnames⟩ := hnames
  obtain ⟨u, hu, rfl⟩ := List.mem_map.1 ht
  exact he ⟨u, hu, hnames⟩

end Discovery

end TaxonomySet
