import TaxonomySet.Proofs.Discovery.Attachment
import TaxonomySet.Proofs.Link.Acceptance

namespace TaxonomySet

namespace Discovery

variable {store : Store}

theorem extends_of_enter {d d' : Discovery} {location : String} {origin : Origin} {root : Markup.Node} {i : Nat}
    {more : List Pending} (h : d.enter location origin root = .ok (d', i, more)) :
    d'.dts.registry.Extends d.dts.registry := by
  obtain ⟨_, s, ds, -, -, ⟨rfl, -, -⟩ | ⟨rfl, -, -⟩ | ⟨rfl, -, -, -⟩⟩ := enter_cases h
  · rw [addSchema_dts]
    exact Registry.extends_addAll _ _ _
  · exact .refl _
  · rw [addSchema_dts]
    exact Registry.extends_addAll _ _ _

/-- Schemas only extend the registry. -/
theorem stable_extends (store : Store) (r : Registry) : Stable store fun _ _ d => d.dts.registry.Extends r where
  skip h _ := h
  leave h _ _ hdts _ _ := hdts ▸ h
  enter h _ _ henter := (extends_of_enter henter).trans h
  main _ h := h

theorem extends_round (store : Store) (locators : Bool) (seen : SortedSet String) (d : Discovery) :
    (round store locators seen d).2.dts.registry.Extends d.dts.registry := by
  unfold round
  dsimp only
  rw [(dts_addLinkbases _ _).1]
  refine (stable_extends store d.dts.registry).drain _ ?_
  rw [(takeLinkbases_fst store d).1]
  exact .refl _

theorem stable_kept (store : Store) : Stable store fun _ _ d => Kept store d where
  skip h _ := h
  leave h _ _ _ _ hembedded := by
    unfold Kept
    rwa [hembedded]
  enter {seen p queue d d' i more root} h _ hdocument henter := by
    intro l root' hl
    rcases embedded_of_enter henter with heq | heq
    · exact h l root' (heq ▸ hl)
    · rw [heq] at hl
      by_cases hlocation : l = p.location
      · subst hlocation
        rw [SortedMap.get?_insert_self, Option.some_inj] at hl
        exact hl ▸ hdocument
      · rw [SortedMap.get?_insert_of_ne _ _ hlocation] at hl
        exact h l root' hl
  main _ h := h

theorem embedded_addLinkbases (d : Discovery) (linkbases : List (String × Markup.Node)) :
    (d.addLinkbases linkbases).embedded = d.embedded :=
  List.foldlRecOn (motive := fun e : Discovery => e.embedded = d.embedded) linkbases addLinkbase rfl fun _ he _ _ => he

theorem Kept.round {seen : SortedSet String} {d : Discovery} (h : Kept store d) (locators : Bool) :
    Kept store (round store locators seen d).2 := by
  have htaken : Kept store (d.takeLinkbases store).1 := by
    unfold Kept
    rwa [(takeLinkbases_fst store d).2.1]
  have hdrained : Kept store (drain store seen (d.takeLinkbases store).1 (if locators then
      (d.takeLinkbases store).1.targets seen (d.takeLinkbases store).2 else [])).2 :=
    (stable_kept store).drain _ htaken
  unfold Discovery.round Kept
  dsimp only
  rwa [embedded_addLinkbases]

/-- A linkbase that a round takes, and the registry that its links are read by. That is the registry after the schemas
that are found in the round. Later rounds may extend it, but no linkbase is read again. -/
structure Taking where
  registry : Registry
  location : String
  tree : Markup.Node

namespace Taking

/-- The links that are accepted. -/
def links (t : Taking) : List ExtendedLink := (ExtendedLink.readAll t.registry t.location t.tree).value

/-- The links that are accepted, each under the document and the place in it of the element that stands for it. -/
def origins (t : Taking) : List ((String × Nat) × ExtendedLink) :=
  (ExtendedLink.linkNodes t.tree).zipIdx.filterMap fun n =>
    (ExtendedLink.readLink t.registry t.location n.1).value.map ((t.location, n.2), ·)

theorem links_eq (t : Taking) : t.links =
    (ExtendedLink.linkNodes t.tree).filterMap fun n => (ExtendedLink.readLink t.registry t.location n).value := by
  unfold links ExtendedLink.readAll Reported.collectSome
  rw [List.filterMap_map]
  rfl

theorem map_origins (t : Taking) : t.origins.map Prod.snd = t.links := by
  have hnodes := List.zipIdx_map_fst 0 (ExtendedLink.linkNodes t.tree)
  rw [links_eq, ← hnodes, List.filterMap_map]
  unfold origins
  rw [List.map_filterMap]
  congr 1
  funext n
  rw [Option.map_map, Function.comp_def]
  exact Option.map_id'

theorem mem_origins_iff {t : Taking} {o : (String × Nat) × ExtendedLink} : o ∈ t.origins ↔
    o.1.1 = t.location ∧ ∃ n, (ExtendedLink.linkNodes t.tree)[o.1.2]? = some n ∧
      (ExtendedLink.readLink t.registry t.location n).value = some o.2 := by
  obtain ⟨⟨location, i⟩, l⟩ := o
  unfold origins
  rw [List.mem_filterMap]
  constructor
  · rintro ⟨⟨n, j⟩, hn, hread⟩
    obtain ⟨l', hl', heq⟩ := Option.map_eq_some_iff.1 hread
    cases heq
    exact ⟨rfl, n, List.mem_zipIdx_iff_getElem?.1 hn, hl'⟩
  · rintro ⟨rfl, n, hn, hread⟩
    exact ⟨(n, i), List.mem_zipIdx_iff_getElem?.2 hn, Option.map_eq_some_iff.2 ⟨l, hread, rfl⟩⟩

theorem fst_of_mem_keys {t : Taking} {key : String × Nat} (h : key ∈ t.origins.map Prod.fst) :
    key.1 = t.location := by
  obtain ⟨o, ho, rfl⟩ := List.mem_map.1 h
  exact (mem_origins_iff.1 ho).1

/-- What is accepted once is accepted again. -/
theorem mem_keys_origins_of_extends {t u : Taking} (hlocation : u.location = t.location) (htree : u.tree = t.tree)
    (hextends : u.registry.Extends t.registry) {key : String × Nat} (h : key ∈ t.origins.map Prod.fst) :
    key ∈ u.origins.map Prod.fst := by
  obtain ⟨o, ho, rfl⟩ := List.mem_map.1 h
  obtain ⟨hkey, n, hn, hread⟩ := mem_origins_iff.1 ho
  obtain ⟨l, hl⟩ := ExtendedLink.exists_readLink_of_extends hextends hread
  refine List.mem_map.2 ⟨(o.1, l), mem_origins_iff.2 ⟨hkey.trans hlocation.symm, n, htree ▸ hn, ?_⟩, rfl⟩
  rw [hlocation]
  exact hl

theorem links_ne_nil_iff {t : Taking} : t.links ≠ [] ↔ ∃ key, key ∈ t.origins.map Prod.fst := by
  rw [← t.map_origins, ne_eq, List.map_eq_nil_iff]
  constructor
  · intro h
    obtain ⟨o, ho⟩ := List.exists_mem_of_ne_nil _ h
    exact ⟨o.1, List.mem_map.2 ⟨o, ho, rfl⟩⟩
  · rintro ⟨_, hkey⟩
    obtain ⟨o, ho, -⟩ := List.mem_map.1 hkey
    exact List.ne_nil_of_mem ho

theorem nodup_origins (t : Taking) : (t.origins.map Prod.fst).Nodup := by
  have hsub (ns : List (Markup.Node × Nat)) : ((ns.filterMap fun n =>
      (ExtendedLink.readLink t.registry t.location n.1).value.map ((t.location, n.2), ·)).map Prod.fst).Sublist
        ((ns.map Prod.snd).map (t.location, ·)) := by
    induction ns with
    | nil => exact List.Sublist.slnil
    | cons n ns ih =>
      rw [List.filterMap_cons, List.map_cons, List.map_cons]
      cases (ExtendedLink.readLink t.registry t.location n.1).value with
      | none => exact ih.cons _
      | some l => exact ih.cons_cons _
  refine (hsub _).nodup ?_
  rw [List.zipIdx_map_snd]
  exact (List.nodup_range' _ Nat.one_pos).map (fun _ _ h => (Prod.mk.inj h).2)

theorem document_of_mem_links {t : Taking} {l : ExtendedLink} (h : l ∈ t.links) : l.document = t.location :=
  ExtendedLink.document_of_mem_readAll h

end Taking

/-- The linkbases that are taken from some point on, round after round. -/
def takings (store : Store) (locators : Bool) (seen : SortedSet String) (d : Discovery) : List Taking :=
  if _hpending : d.unloaded = [] then []
  else
    let next := round store locators seen d
    (d.takeLinkbases store).2.map (fun l => ⟨next.2.dts.registry, l.1, l.2⟩) ++ takings store locators next.1 next.2
termination_by ((unseen store seen).length, d.unloaded.length)
decreasing_by exact round_lex store locators seen _hpending

/-- The linkbases that are taken from some point on, those of each round apart. -/
def takingRounds (store : Store) (locators : Bool) (seen : SortedSet String) (d : Discovery) : List (List Taking) :=
  if _hpending : d.unloaded = [] then []
  else
    let next := round store locators seen d
    (d.takeLinkbases store).2.map (fun l => ⟨next.2.dts.registry, l.1, l.2⟩) ::
      takingRounds store locators next.1 next.2
termination_by ((unseen store seen).length, d.unloaded.length)
decreasing_by exact round_lex store locators seen _hpending

variable (store) (locators : Bool)

/-- The rounds add the links that are accepted of the linkbases that they take. -/
theorem links_rounds (seen : SortedSet String) (d : Discovery) : (rounds store locators seen d).2.dts.links =
    d.dts.links ++ (takings store locators seen d).flatMap Taking.links := by
  fun_induction takings store locators seen d with
  | case1 seen d hnil =>
    rw [rounds, dif_pos hnil]
    exact (List.append_nil _).symm
  | case2 seen d hne next ih =>
    rw [rounds, dif_neg hne]
    refine ih.trans ?_
    rw [(links_round store locators seen d).2, List.flatMap_append, List.flatMap_map, List.append_assoc]
    rfl

/-- A linkbase is read by a registry between the one at first and the one at last. -/
theorem extends_takings (seen : SortedSet String) (d : Discovery) :
    (rounds store locators seen d).2.dts.registry.Extends d.dts.registry ∧
    ∀ t ∈ takings store locators seen d, t.registry.Extends d.dts.registry ∧
      (rounds store locators seen d).2.dts.registry.Extends t.registry := by
  fun_induction takings store locators seen d with
  | case1 seen d hnil =>
    rw [rounds, dif_pos hnil]
    exact ⟨.refl _, fun t ht => by cases ht⟩
  | case2 seen d hne next ih =>
    have hnext : next.2.dts.registry.Extends d.dts.registry := extends_round store locators seen d
    obtain ⟨hlast, hrest⟩ := ih
    rw [rounds, dif_neg hne]
    refine ⟨hlast.trans hnext, fun t ht => ?_⟩
    rcases List.mem_append.1 ht with ht | ht
    · obtain ⟨l, -, rfl⟩ := List.mem_map.1 ht
      exact ⟨hnext, hlast⟩
    · obtain ⟨hfirst, hfinal⟩ := hrest t ht
      exact ⟨hfirst.trans hnext, hfinal⟩

/-- A round in which no linkbase can be read finds no schema. -/
theorem registry_round_of_nil {seen : SortedSet String} {d : Discovery} (h : (d.takeLinkbases store).2 = []) :
    (round store locators seen d).2.dts.registry = d.dts.registry := by
  have htargets : (if locators then (d.takeLinkbases store).1.targets seen (d.takeLinkbases store).2 else []) = [] := by
    rw [h]
    cases locators <;> rfl
  unfold round
  dsimp only
  rw [(dts_addLinkbases _ _).1, htargets, drain, (takeLinkbases_fst store d).1]

theorem flatten_takingRounds (seen : SortedSet String) (d : Discovery) :
    (takingRounds store locators seen d).flatten = takings store locators seen d := by
  fun_induction takings store locators seen d with
  | case1 seen d hnil =>
    rw [takingRounds, dif_pos hnil]
    rfl
  | case2 seen d hne next ih =>
    rw [takingRounds, dif_neg hne, List.flatten_cons]
    exact congrArg _ ih

/-- The linkbases of one round are read by one registry. -/
theorem registry_eq_of_mem_takingRounds {seen : SortedSet String} {d : Discovery} {ts : List Taking}
    (hts : ts ∈ takingRounds store locators seen d) {t u : Taking} (ht : t ∈ ts) (hu : u ∈ ts) :
    t.registry = u.registry := by
  fun_induction takingRounds store locators seen d with
  | case1 seen d hnil => cases hts
  | case2 seen d hne next ih =>
    rcases List.mem_cons.1 hts with rfl | hts
    · obtain ⟨l, -, rfl⟩ := List.mem_map.1 ht
      obtain ⟨m, -, rfl⟩ := List.mem_map.1 hu
      rfl
    · exact ih hts

/-- If no linkbase is taken any more, the registry stays as it is. -/
theorem registry_rounds_of_nil {seen : SortedSet String} {d : Discovery} (h : takings store locators seen d = []) :
    (rounds store locators seen d).2.dts.registry = d.dts.registry := by
  fun_induction takings store locators seen d with
  | case1 seen d hnil => rw [rounds, dif_pos hnil]
  | case2 seen d hne next ih =>
    obtain ⟨hnow, hlater⟩ := List.append_eq_nil_iff.1 h
    rw [rounds, dif_neg hne]
    exact (ih hlater).trans (registry_round_of_nil store locators (List.map_eq_nil_iff.1 hnow))

/-- The linkbases of the last round are read by the registry that there is at last. -/
theorem registry_of_last_takingRounds {seen : SortedSet String} {d : Discovery} {before after : List (List Taking)}
    {last : List Taking} (hrounds : takingRounds store locators seen d = before ++ last :: after)
    (hafter : after.flatten = []) {t : Taking} (ht : t ∈ last) :
    t.registry = (rounds store locators seen d).2.dts.registry := by
  induction before generalizing seen d with
  | nil =>
    rw [takingRounds] at hrounds
    rw [rounds]
    split at hrounds
    · cases hrounds
    · rename_i hne
      obtain ⟨rfl, rfl⟩ := List.cons.inj hrounds
      rw [flatten_takingRounds] at hafter
      obtain ⟨l, -, rfl⟩ := List.mem_map.1 ht
      rw [dif_neg hne]
      exact (registry_rounds_of_nil store locators hafter).symm
  | cons earlier before ih =>
    rw [takingRounds] at hrounds
    rw [rounds]
    split at hrounds
    · cases hrounds
    · rename_i hne
      rw [dif_neg hne]
      exact ih (List.cons.inj hrounds).2

/-- No linkbase is taken twice, and none that was taken before. -/
theorem nodup_takings (seen : SortedSet String) (d : Discovery) :
    ((takings store locators seen d).map (·.location)).Nodup ∧
    ∀ t ∈ takings store locators seen d, d.loaded.contains t.location = false := by
  fun_induction takings store locators seen d with
  | case1 seen d hnil => exact ⟨List.nodup_nil, fun t ht => by cases ht⟩
  | case2 seen d hne next ih =>
    obtain ⟨hnodup, hfresh⟩ := ih
    have hloaded : next.2.loaded = d.loaded.insertAll (d.unloaded.map (·.1)) :=
      (links_round store locators seen d).1.trans (takeLinkbases_fst store d).2.2
    have hunloaded {l : String × Markup.Node} (hl : l ∈ (d.takeLinkbases store).2) : l.1 ∈ d.unloaded.map (·.1) := by
      obtain ⟨embedded, hmem, -⟩ := mem_takeLinkbases.1 hl
      exact List.mem_map.2 ⟨_, hmem, rfl⟩
    refine ⟨?_, fun t ht => ?_⟩
    · rw [List.map_append, List.map_map]
      refine List.nodup_append.2 ⟨nodup_takeLinkbases store d, hnodup, fun l hl m hm heq => ?_⟩
      subst heq
      obtain ⟨linkbase, hlinkbase, rfl⟩ := List.mem_map.1 hl
      obtain ⟨t, ht, hlocation⟩ := List.mem_map.1 hm
      have hcontains := hfresh t ht
      rw [hlocation, hloaded, Bool.eq_false_iff] at hcontains
      exact hcontains (SortedSet.mem_insertAll.2 (.inl (hunloaded hlinkbase)))
    · rcases List.mem_append.1 ht with ht | ht
      · obtain ⟨l, hl, rfl⟩ := List.mem_map.1 ht
        obtain ⟨p, hp, hlocation⟩ := List.mem_map.1 (hunloaded hl)
        exact hlocation ▸ (exists_record?_of_mem_unloaded hp).2
      · have hcontains := hfresh t ht
        rw [hloaded, Bool.eq_false_iff] at hcontains
        exact Bool.eq_false_iff.2 fun h => hcontains (SortedSet.mem_insertAll.2 (.inr h))

/-- Records stay in their places. -/
theorem mem_recordLocations_round {seen : SortedSet String} {d : Discovery} {l : String} (h : l ∈ d.recordLocations) :
    l ∈ (round store locators seen d).2.recordLocations := by
  have hwidens := widens_drain store seen (d.takeLinkbases store).1
    (if locators then (d.takeLinkbases store).1.targets seen (d.takeLinkbases store).2 else [])
  obtain ⟨i, j, r, hr, rfl⟩ := mem_recordLocations.1 h
  unfold round
  dsimp only
  rw [(addLinkbases_loaded _ _).2]
  exact mem_recordLocations.2 ⟨i, j, r, hwidens.keeps ((takeLinkbases_fst store d).1 ▸ hr), rfl⟩

/-- The linkbases that are taken belong to records. -/
theorem mem_recordLocations_of_mem_takings {seen : SortedSet String} {d : Discovery} {t : Taking}
    (ht : t ∈ takings store locators seen d) : t.location ∈ (rounds store locators seen d).2.recordLocations := by
  fun_induction takings store locators seen d with
  | case1 seen d hnil => cases ht
  | case2 seen d hne next ih =>
    rw [rounds, dif_neg hne]
    rcases List.mem_append.1 ht with ht | ht
    · obtain ⟨⟨l, tree⟩, hl, rfl⟩ := List.mem_map.1 ht
      obtain ⟨embedded, hunloaded, -⟩ := mem_takeLinkbases.1 hl
      obtain ⟨⟨i, j, r, hr, hlocation, -⟩, -⟩ := exists_record?_of_mem_unloaded hunloaded
      have hmem : l ∈ d.recordLocations := mem_recordLocations.2 ⟨i, j, r, hr, hlocation⟩
      exact (rounds_induction (P := fun _ d => l ∈ d.recordLocations)
        (mem_recordLocations_round store locators) (mem_recordLocations_round store locators hmem)).1
    · exact ih ht

/-- The elements that links stand for are all different. -/
theorem nodup_origins_takings {ts : List Taking} (h : (ts.map (·.location)).Nodup) :
    ((ts.flatMap Taking.origins).map Prod.fst).Nodup := by
  rw [List.map_flatMap, List.nodup_flatMap]
  refine ⟨fun t _ => t.nodup_origins, (List.pairwise_map.1 h).imp fun {t u} hne key ht hu => hne ?_⟩
  exact (Taking.fst_of_mem_keys ht).symm.trans (Taking.fst_of_mem_keys hu)

variable {store} {locators}

/-- Where a linkbase is taken again with all that was declared before, no element stands for two links unless some
linkbase with links is taken again. -/
theorem nodup_origins_append_iff {ts us : List Taking} (hts : (ts.map (·.location)).Nodup)
    (hus : (us.map (·.location)).Nodup) (hagain : ∀ t ∈ ts, ∀ u ∈ us, u.location = t.location →
      u.tree = t.tree ∧ u.registry.Extends t.registry) :
    (((ts ++ us).flatMap Taking.origins).map Prod.fst).Nodup ↔
      ∀ t ∈ ts, t.links ≠ [] → ∀ u ∈ us, u.location ≠ t.location := by
  have hmem {vs : List Taking} {key : String × Nat} : key ∈ (vs.flatMap Taking.origins).map Prod.fst ↔
      ∃ v ∈ vs, key ∈ v.origins.map Prod.fst := by
    rw [List.map_flatMap, List.mem_flatMap]
  rw [List.flatMap_append, List.map_append, List.nodup_append]
  constructor
  · rintro ⟨-, -, hdisjoint⟩ t ht hlinks u hu hlocation
    obtain ⟨htree, hextends⟩ := hagain t ht u hu hlocation
    obtain ⟨key, hkey⟩ := Taking.links_ne_nil_iff.1 hlinks
    exact hdisjoint _ (hmem.2 ⟨t, ht, hkey⟩) _
      (hmem.2 ⟨u, hu, Taking.mem_keys_origins_of_extends hlocation htree hextends hkey⟩) rfl
  · intro h
    refine ⟨nodup_origins_takings hts, nodup_origins_takings hus, fun key hkey key' hkey' heq => ?_⟩
    subst heq
    obtain ⟨t, ht, hkey⟩ := hmem.1 hkey
    obtain ⟨u, hu, hkey'⟩ := hmem.1 hkey'
    exact h t ht (Taking.links_ne_nil_iff.2 ⟨key, hkey⟩) u hu
      ((Taking.fst_of_mem_keys hkey').symm.trans (Taking.fst_of_mem_keys hkey))

/-- The trees of the linkbases are those of the documents at their locations. -/
theorem document_of_mem_takings {seen : SortedSet String} {d : Discovery} (h : Kept store d) {t : Taking}
    (ht : t ∈ takings store locators seen d) : store.document t.location = .ok t.tree := by
  fun_induction takings store locators seen d with
  | case1 seen d hnil => cases ht
  | case2 seen d hne next ih =>
    rcases List.mem_append.1 ht with ht | ht
    · obtain ⟨l, hl, rfl⟩ := List.mem_map.1 ht
      exact h.document hl
    · exact ih (h.round locators) ht

/-- A linkbase that is left is taken in the next round, if it can be read then, or never. -/
theorem exists_taking_iff {seen : SortedSet String} {d : Discovery} {location : String} {embedded : Bool}
    (hunloaded : (location, embedded) ∈ d.unloaded) : (∃ t ∈ takings store locators seen d, t.location = location) ↔
      (tree? store d.embedded (location, embedded)).isSome = true := by
  have hmem : location ∈ d.unloaded.map (·.1) := List.mem_map.2 ⟨_, hunloaded, rfl⟩
  have hne : d.unloaded ≠ [] := List.ne_nil_of_mem hunloaded
  rw [takings, dif_neg hne, Option.isSome_iff_exists]
  constructor
  · rintro ⟨t, ht, rfl⟩
    rcases List.mem_append.1 ht with ht | ht
    · obtain ⟨⟨l, tree⟩, hl, rfl⟩ := List.mem_map.1 ht
      obtain ⟨embedded', hunloaded', htree⟩ := mem_takeLinkbases.1 hl
      have hsame := (mem_unloaded_iff.1 hunloaded').2.symm.trans (mem_unloaded_iff.1 hunloaded).2
      rw [Option.some_inj.1 hsame] at htree
      exact ⟨tree, htree⟩
    · have hfresh := (nodup_takings store locators _ _).2 t ht
      rw [(links_round store locators seen d).1, (takeLinkbases_fst store d).2.2] at hfresh
      rw [SortedSet.mem_insertAll.2 (.inl hmem)] at hfresh
      cases hfresh
  · rintro ⟨tree, htree⟩
    have htaken := mem_takeLinkbases.2 ⟨embedded, hunloaded, htree⟩
    exact ⟨_, List.mem_append_left _ (List.mem_map.2 ⟨_, htaken, rfl⟩), rfl⟩

/-- A linkbase that is taken and can be read is among the takings. -/
theorem exists_taking {seen : SortedSet String} {d : Discovery} (h : Grounded store seen d) {l : String}
    (hfresh : d.loaded.contains l = false) (htaken : (rounds store locators seen d).2.loaded.contains l = true)
    {tree : Markup.Node} (hdocument : store.document l = .ok tree) :
    ∃ t ∈ takings store locators seen d, t.location = l ∧ t.tree = tree := by
  fun_induction takings store locators seen d with
  | case1 seen d hnil =>
    rw [rounds, dif_pos hnil, hfresh] at htaken
    cases htaken
  | case2 seen d hne next ih =>
    rw [rounds, dif_neg hne] at htaken
    by_cases hnow : l ∈ d.unloaded.map (·.1)
    · have hmem : (l, tree) ∈ (d.takeLinkbases store).2 := h.mem_takeLinkbases_iff.2 ⟨hnow, hdocument⟩
      exact ⟨_, List.mem_append_left _ (List.mem_map.2 ⟨_, hmem, rfl⟩), rfl, rfl⟩
    · have hloaded : next.2.loaded = d.loaded.insertAll (d.unloaded.map (·.1)) :=
        (links_round store locators seen d).1.trans (takeLinkbases_fst store d).2.2
      have hlater : next.2.loaded.contains l = false := by
        rw [hloaded, Bool.eq_false_iff]
        intro hcontains
        rcases SortedSet.mem_insertAll.1 hcontains with hmem | hmem
        · exact hnow hmem
        · exact Bool.eq_false_iff.1 hfresh hmem
      obtain ⟨t, ht, heq⟩ := ih (h.round locators) hlater htaken
      exact ⟨t, List.mem_append_right _ ht, heq⟩

end Discovery

end TaxonomySet
