import TaxonomySet.Proofs.Dimension.Merging
import TaxonomySet.Proofs.Relationship.Effective

namespace TaxonomySet

open Overridable

/-- The edge that a relationship is, if it joins two concepts. -/
def Relationship.edge? (arcrole : Dimension.Arcrole) (r : Relationship) : Option Dimension.Edge :=
  r.source.concept?.bind fun source => r.target.concept?.map fun target =>
    .ofArc r.arc arcrole source target r.document

theorem Endpoint.eq_concept_of_key {e : Endpoint} {name : QName} (h : e.key = .concept name) :
    e = .concept name := by
  cases e with
  | concept n => exact congrArg Endpoint.concept (EndKey.concept.inj h)
  | resource r => cases h

namespace Relationship

theorem edge?_eq_some_iff {arcrole : Dimension.Arcrole} {r : Relationship} {e : Dimension.Edge} :
    r.edge? arcrole = some e ↔ r.source = .concept e.source ∧ r.target = .concept e.target ∧
      e = .ofArc r.arc arcrole e.source e.target r.document := by
  obtain ⟨source, target, arc, role, document, link⟩ := r
  constructor
  · intro h
    cases source with
    | resource s => cases h
    | concept s =>
      cases target with
      | resource t => cases h
      | concept t =>
        cases h
        exact ⟨rfl, rfl, rfl⟩
  · rintro ⟨rfl, rfl, he⟩
    exact congrArg some he.symm

variable {arcrole : Dimension.Arcrole} {r : Relationship}

theorem key_of_edge? {e : Dimension.Edge} (harcrole : r.arc.arcrole = arcrole.uri) (h : r.edge? arcrole = some e) :
    e.key = r.key := by
  obtain ⟨hsource, htarget, he⟩ := edge?_eq_some_iff.1 h
  rw [he]
  unfold key
  rw [hsource, htarget]
  exact congrArg (EquivalenceKey.mk _ · _ _ _) harcrole.symm

theorem isSome_edge? : (r.edge? arcrole).isSome = (r.source.concept?.isSome && r.target.concept?.isSome) := by
  unfold edge?
  cases r.source.concept? <;> cases r.target.concept? <;> rfl

theorem edge?_of_key {source target : QName} (hsource : r.key.source = .concept source)
    (htarget : r.key.target = .concept target) :
    r.edge? arcrole = some (.ofArc r.arc arcrole source target r.document) :=
  edge?_eq_some_iff.2 ⟨Endpoint.eq_concept_of_key hsource, Endpoint.eq_concept_of_key htarget, rfl⟩

theorem edge?_of_key_eq {e : Dimension.Edge} (h : r.key = e.key) :
    r.edge? arcrole = some (.ofArc r.arc arcrole e.source e.target r.document) :=
  edge?_of_key (congrArg EquivalenceKey.source h) (congrArg EquivalenceKey.target h)

end Relationship

theorem BaseSetKey.arcrole_of_mem_arising {key : BaseSetKey} {resolve : Resolver} {links : List ExtendedLink}
    {r : Relationship} (h : r ∈ key.arising resolve links) : r.arc.arcrole = key.arcrole := by
  unfold BaseSetKey.arising ExtendedLink.made at h
  simp only [List.mem_flatMap, List.mem_filter, List.mem_map, beq_iff_eq] at h
  obtain ⟨l, -, arc, ⟨-, harc⟩, source, -, target, -, rfl⟩ := h
  exact harc

/-- What counts of a group are the relationships of its key that prevail. -/
theorem BaseSet.selectEffective_filter_key (rs : List Relationship) (k : EquivalenceKey) :
    selectEffective (rs.filter fun r => r.key == k) = rs.filter fun r => decide (r.Prevails rs ∧ r.key = k) := by
  by_cases hnil : (rs.filter fun r => r.key == k) = []
  · rw [hnil]
    refine (List.filter_eq_nil_iff.2 fun r hr h => ?_).symm
    exact List.filter_eq_nil_iff.1 hnil r hr (beq_iff_eq.2 (of_decide_eq_true h).2)
  · have hget : (groupsOf rs).get? k = some (rs.filter fun r => r.key == k) := by
      rw [get?_groupsOf, if_neg hnil]
    rw [selectEffective_of_get?_groupsOf hget, List.filter_filter]
    exact List.filter_congr fun r _ => by rw [Bool.decide_and]; rfl

namespace Dimension

theorem Arcrole.uri_injective : Function.Injective Arcrole.uri := by
  intro a b h
  cases a <;> cases b <;> first | rfl | exact absurd h (by decide)

theorem Arcrole.ofUri?_eq_some_iff {s : String} {arcrole : Arcrole} : ofUri? s = some arcrole ↔ s = arcrole.uri := by
  constructor
  · intro h
    unfold ofUri? at h
    have huri := List.find?_some h
    exact (beq_iff_eq.1 huri).symm
  · rintro rfl
    cases arcrole <;> decide

theorem concepts_eq_ends (resolve : Resolver) (l : ExtendedLink) (label : String) :
    concepts resolve l label = (l.ends resolve label).filterMap Endpoint.concept? := by
  have hresources (rs : List Resource) : (rs.map Endpoint.resource).filterMap Endpoint.concept? = [] := by
    rw [List.filterMap_map]
    exact List.filterMap_eq_nil_iff.2 fun _ _ => rfl
  rw [← l.endpoints_eq_ends]
  unfold concepts ExtendedLink.endpoints
  rw [List.filterMap_append, hresources, List.append_nil, List.filterMap_filterMap]

/-- The edges of an arc are the relationships that it makes between concepts. -/
theorem edgesOfArc_eq_made (resolve : Resolver) (l : ExtendedLink) (i : Nat) (arc : Arc) (arcrole : Arcrole) :
    edgesOfArc resolve l arc arcrole = (l.made resolve i arc).filterMap (Relationship.edge? arcrole) := by
  unfold edgesOfArc ExtendedLink.made
  rw [concepts_eq_ends, concepts_eq_ends]
  generalize l.ends resolve arc.target = targets
  induction l.ends resolve arc.source with
  | nil => rfl
  | cons source sources ih =>
    rw [List.flatMap_cons, List.filterMap_append, ← ih, List.filterMap_map]
    cases source with
    | concept name =>
      rw [List.filterMap_cons_some (show Endpoint.concept? (.concept name) = some name from rfl), List.flatMap_cons,
        List.map_filterMap]
      rfl
    | resource r =>
      rw [List.filterMap_cons_none (show Endpoint.concept? (.resource r) = none from rfl)]
      exact congrArg (· ++ _) (List.filterMap_eq_nil_iff.2 fun _ _ => rfl).symm

/-- The edges that arcs of a link make with an arcrole are those of the arcs that have it. -/
theorem filter_edges_of_arcs (resolve : Resolver) (l : ExtendedLink) (i : Nat) (arcs : List Arc) (arcrole : Arcrole) :
    ((arcs.filterMap fun a => (Arcrole.ofUri? a.arcrole).map fun arcrole =>
        (l.role, edgesOfArc resolve l a arcrole)).flatMap fun c => c.2.filter fun e => e.arcrole == arcrole) =
      ((arcs.filter fun a => a.arcrole == arcrole.uri).flatMap (l.made resolve i)).filterMap
        (Relationship.edge? arcrole) := by
  have hmade (a : Arc) (actual : Arcrole) (e : Edge) (he : e ∈ edgesOfArc resolve l a actual) : e.arcrole = actual := by
    simp only [edgesOfArc, List.mem_flatMap, List.mem_map] at he
    obtain ⟨source, -, target, -, rfl⟩ := he
    rfl
  induction arcs with
  | nil => rfl
  | cons a arcs ih =>
    cases hactual : Arcrole.ofUri? a.arcrole with
    | none =>
      have hne : a.arcrole ≠ arcrole.uri := fun h => by
        rw [Arcrole.ofUri?_eq_some_iff.2 h] at hactual
        cases hactual
      rw [List.filterMap_cons_none (by rw [hactual]; rfl), ih, List.filter_cons_of_neg (by simpa using hne)]
    | some actual =>
      have huri := Arcrole.ofUri?_eq_some_iff.1 hactual
      rw [List.filterMap_cons_some (by rw [hactual]; rfl), List.flatMap_cons, ih]
      by_cases heq : actual = arcrole
      · subst heq
        rw [List.filter_cons_of_pos (by simpa using huri), List.flatMap_cons, List.filterMap_append,
          ← edgesOfArc_eq_made, List.filter_eq_self.2 fun e he => beq_iff_eq.2 (hmade a actual e he)]
      · have hne : a.arcrole ≠ arcrole.uri := fun h => heq (Arcrole.uri_injective (huri.symm.trans h))
        have hnone : ((edgesOfArc resolve l a actual).filter fun e => e.arcrole == arcrole) = [] :=
          List.filter_eq_nil_iff.2 fun e he => by simpa [hmade a actual e he] using heq
        rw [List.filter_cons_of_neg (by simpa using hne), hnone, List.nil_append]

/-- The edges of a role and arcrole arise as the relationships of their base set do. -/
theorem filter_arisingEdges (resolve : Resolver) (links : List ExtendedLink) (role : String) (arcrole : Arcrole) :
    ((arisingEdges resolve links role).filter fun e => e.arcrole == arcrole) =
      (BaseSetKey.arising ⟨.definition, role, arcrole.uri⟩ resolve links).filterMap
        (Relationship.edge? arcrole) := by
  unfold arisingEdges contributions BaseSetKey.arising
  rw [List.filter_flatMap, List.filter_flatMap, List.flatMap_assoc, List.filterMap_flatMap,
    flatMap_filter (fun l : ExtendedLink × Nat => decide _), ← List.zipIdx_map_fst 0 links, List.flatMap_map,
    List.zipIdx_map_fst]
  refine List.flatMap_congr ?_
  rintro ⟨l, i⟩ -
  dsimp only
  have hrole (c : String × List Edge) (hc : c ∈ l.arcList.filterMap fun a => (Arcrole.ofUri? a.arcrole).map
      fun arcrole => (l.role, edgesOfArc resolve l a arcrole)) : c.1 = l.role := by
    obtain ⟨a, -, ha⟩ := List.mem_filterMap.1 hc
    obtain ⟨actual, -, rfl⟩ := Option.map_eq_some_iff.1 ha
    rfl
  by_cases hlink : l.kind = .definition ∧ l.role = role
  · obtain ⟨hkind, rfl⟩ := hlink
    rw [if_pos (beq_iff_eq.2 hkind), if_pos (decide_eq_true ⟨hkind, rfl⟩), ← filter_edges_of_arcs,
      List.filter_eq_self.2 fun c hc => beq_iff_eq.2 (hrole c hc)]
  · rw [if_neg fun h => hlink (of_decide_eq_true h)]
    by_cases hkind : l.kind = .definition
    · have hne : l.role ≠ role := fun h => hlink ⟨hkind, h⟩
      rw [if_pos (beq_iff_eq.2 hkind), List.filter_eq_nil_iff.2 fun c hc => by simpa [hrole c hc] using hne,
        List.flatMap_nil]
    · rw [if_neg fun h => hkind (beq_iff_eq.1 h), List.filter_nil, List.flatMap_nil]

/-- The edges with the key of a relationship between concepts arise as the relationships with that key do. -/
theorem filter_key_arisingEdges (resolve : Resolver) (links : List ExtendedLink) (role : String) {arcrole : Arcrole}
    {k : EquivalenceKey} {source target : QName} (harcrole : k.arcrole = arcrole.uri)
    (hsource : k.source = .concept source) (htarget : k.target = .concept target) :
    ((arisingEdges resolve links role).filter fun e => e.key == k) =
      ((BaseSetKey.arising ⟨.definition, role, arcrole.uri⟩ resolve links).filter fun r => r.key == k).map
        fun r => .ofArc r.arc arcrole source target r.document := by
  have hedges : ((arisingEdges resolve links role).filter fun e => e.key == k) =
      ((arisingEdges resolve links role).filter fun e => e.arcrole == arcrole).filter fun e => e.key == k := by
    rw [List.filter_filter]
    refine List.filter_congr fun e _ => ?_
    rw [Bool.eq_iff_iff, Bool.and_eq_true, iff_self_and, beq_iff_eq, beq_iff_eq]
    exact fun h => Arcrole.uri_injective ((congrArg EquivalenceKey.arcrole h).trans harcrole)
  rw [hedges, filter_arisingEdges, List.filter_filterMap, ← List.filterMap_eq_map, List.filterMap_filter]
  refine List.filterMap_congr fun r hr => ?_
  have huri : r.arc.arcrole = arcrole.uri := BaseSetKey.arcrole_of_mem_arising hr
  by_cases hkey : r.key = k
  · have hedge : r.edge? arcrole = some (.ofArc r.arc arcrole source target r.document) :=
      Relationship.edge?_of_key (hkey ▸ hsource) (hkey ▸ htarget)
    rw [hedge, if_pos (beq_iff_eq.2 hkey), Option.filter_some, if_pos]
    · rfl
    · exact beq_iff_eq.2 ((Relationship.key_of_edge? huri hedge).trans hkey)
  · rw [if_neg fun h => hkey (beq_iff_eq.1 h)]
    refine Option.filter_eq_none_iff.2 fun e he => ?_
    rw [Relationship.key_of_edge? huri he]
    exact fun h => hkey (beq_iff_eq.1 h)

/-- The edges of an arcrole that the table of a role shows, if there is one. A network selects once among all
candidates of a base set; the table has dropped those that are overridden as it met them, and shows one of those that
tie. -/
def shownEdges (tables : SortedMap String Table) (role : String) (arcrole : Arcrole) : List Edge :=
  (((tables.get? role).map (·.view.edges.all.toList)).getD []).filter fun e => e.arcrole == arcrole

theorem mem_shownEdges {resolve : Resolver} {links : List ExtendedLink} {role : String} {arcrole : Arcrole} {e : Edge} :
    e ∈ shownEdges (collect resolve links) role arcrole ↔ e.arcrole = arcrole ∧
      (selectEffective ((arisingEdges resolve links role).filter fun f => f.key == e.key)).head? = some e := by
  unfold shownEdges
  rw [List.mem_filter, beq_iff_eq, and_comm]
  refine and_congr_right fun _ => ?_
  cases hget : (collect resolve links).get? role with
  | none =>
    rw [arisingEdges_eq_nil hget]
    exact iff_of_false List.not_mem_nil (by rintro ⟨⟩)
  | some t =>
    have hgathers := Table.gathers_of_get?_collect hget
    rw [Option.map_some, Option.getD_some, ← hgathers.mem_effective, ← hgathers.current.all_eq]

theorem nodup_shownEdges (resolve : Resolver) (links : List ExtendedLink) (role : String) (arcrole : Arcrole) :
    (shownEdges (collect resolve links) role arcrole).Nodup := by
  unfold shownEdges
  cases hget : (collect resolve links).get? role with
  | none => exact List.nodup_nil
  | some t =>
    obtain ⟨-, hgrouped, hcurrent⟩ := of_get?_collect hget
    refine List.Nodup.filter _ ?_
    change t.view.edges.all.toList.Nodup
    rw [hcurrent.all_eq]
    exact Table.nodup_effective hgrouped

/-- A table shows the first of the relationships that prevail with a key. -/
theorem mem_shownEdges_iff_find? {resolve : Resolver} {links : List ExtendedLink} {role : String} {arcrole : Arcrole}
    {e : Edge} :
    let arising := BaseSetKey.arising ⟨.definition, role, arcrole.uri⟩ resolve links
    e ∈ shownEdges (collect resolve links) role arcrole ↔
      ∃ r, arising.find? (fun r => decide (r.Prevails arising ∧ r.key = e.key)) = some r ∧
        r.edge? arcrole = some e := by
  intro arising
  have hselect (harcrole : e.arcrole = arcrole) :
      (selectEffective ((arisingEdges resolve links role).filter fun f => f.key == e.key)).head? =
        (arising.find? fun r => decide (r.Prevails arising ∧ r.key = e.key)).map
          fun r => .ofArc r.arc arcrole e.source e.target r.document := by
    have huri : e.key.arcrole = arcrole.uri := congrArg Arcrole.uri harcrole
    rw [filter_key_arisingEdges resolve links role huri rfl rfl,
      @selectEffective_map Relationship _ Edge _ _ (fun _ => rfl) (fun _ => rfl),
      BaseSet.selectEffective_filter_key, List.head?_map, List.head?_filter]
  rw [mem_shownEdges]
  constructor
  · rintro ⟨harcrole, hhead⟩
    rw [hselect harcrole, Option.map_eq_some_iff] at hhead
    obtain ⟨r, hr, he⟩ := hhead
    have hr' := List.find?_some hr
    have hkey : r.key = e.key := (of_decide_eq_true hr').2
    exact ⟨r, hr, (Relationship.edge?_of_key_eq hkey).trans (congrArg some he)⟩
  · rintro ⟨r, hr, he⟩
    obtain ⟨-, -, heq⟩ := Relationship.edge?_eq_some_iff.1 he
    have harcrole : e.arcrole = arcrole := congrArg Edge.arcrole heq
    refine ⟨harcrole, ?_⟩
    rw [hselect harcrole, hr, Option.map_some, ← heq]

theorem nodup_keys_shownEdges (resolve : Resolver) (links : List ExtendedLink) (role : String) (arcrole : Arcrole) :
    ((shownEdges (collect resolve links) role arcrole).map (·.key)).Nodup := by
  refine List.Nodup.map_on (fun e he f hf hkey => ?_) (nodup_shownEdges resolve links role arcrole)
  have he := (mem_shownEdges.1 he).2
  rw [hkey, (mem_shownEdges.1 hf).2] at he
  exact (Option.some.inj he).symm

/-- A table shows the keys of the relationships that prevail and join two concepts. -/
theorem mem_keys_shownEdges {resolve : Resolver} {links : List ExtendedLink} {role : String} {arcrole : Arcrole}
    {k : EquivalenceKey} :
    let arising := BaseSetKey.arising ⟨.definition, role, arcrole.uri⟩ resolve links
    k ∈ (shownEdges (collect resolve links) role arcrole).map (·.key) ↔
      ∃ r ∈ arising, r.Prevails arising ∧ (r.edge? arcrole).isSome = true ∧ r.key = k := by
  intro arising
  rw [List.mem_map]
  constructor
  · rintro ⟨e, he, rfl⟩
    obtain ⟨r, hr, hedge⟩ := mem_shownEdges_iff_find?.1 he
    have hr' := List.find?_some hr
    obtain ⟨hprevails, hkey⟩ := of_decide_eq_true hr'
    exact ⟨r, List.mem_of_find?_eq_some hr, hprevails, Option.isSome_of_eq_some hedge, hkey⟩
  · rintro ⟨r, harising, hprevails, hsome, rfl⟩
    obtain ⟨e, he⟩ := Option.isSome_iff_exists.1 hsome
    have hekey : e.key = r.key := Relationship.key_of_edge? (BaseSetKey.arcrole_of_mem_arising harising) he
    have hany : (arising.find? fun s => decide (s.Prevails arising ∧ s.key = r.key)).isSome = true :=
      List.find?_isSome.2 ⟨r, harising, decide_eq_true ⟨hprevails, rfl⟩⟩
    -- the edge that is shown is that of the first such relationship
    obtain ⟨first, hfirst⟩ := Option.isSome_iff_exists.1 hany
    have hfirst' := List.find?_some hfirst
    have hkey : first.key = e.key := (of_decide_eq_true hfirst').2.trans hekey.symm
    have hedge : first.edge? arcrole = some (.ofArc first.arc arcrole e.source e.target first.document) :=
      Relationship.edge?_of_key_eq hkey
    have hshown := Relationship.key_of_edge?
      (BaseSetKey.arcrole_of_mem_arising (List.mem_of_find?_eq_some hfirst)) hedge
    refine ⟨_, mem_shownEdges_iff_find?.2 ⟨first, ?_, hedge⟩, hshown.trans (hkey.trans hekey)⟩
    rwa [hshown, hkey, hekey]

/-- The tables and the network of links agree. The relationships of a dimensional arcrole that join two
concepts have the same keys as the edges of the arcrole that the table of their role shows, which are none
if there is no such table. There is one edge for each key, and its arc is the first in the order of the
links among those of the relationships with the key. -/
theorem shownEdges_collect_agree (resolve : Resolver) (links : List ExtendedLink) (role : String) (arcrole : Arcrole) :
    let key : BaseSetKey := ⟨.definition, role, arcrole.uri⟩
    let relationships := ((Network.ofLinks resolve links).value.relationships key).filter fun r =>
      r.source.concept?.isSome && r.target.concept?.isSome
    let edges := shownEdges (collect resolve links) role arcrole
    (∀ k, k ∈ relationships.map (·.key) ↔ k ∈ edges.map (·.key)) ∧ (edges.map (·.key)).Nodup ∧
      ∀ e ∈ edges, ∃ r,
        (key.arising resolve links).find? (fun r => decide (r ∈ relationships ∧ r.key = e.key)) = some r ∧
        r.edge? arcrole = some e := by
  intro key relationships edges
  let arising := key.arising resolve links
  have hmem (r : Relationship) : r ∈ relationships ↔
      r ∈ arising ∧ r.Prevails arising ∧ (r.edge? arcrole).isSome = true := by
    rw [List.mem_filter, Network.mem_relationships_iff, Relationship.isSome_edge?, and_assoc]
  refine ⟨fun k => ?_, nodup_keys_shownEdges resolve links role arcrole, fun e he => ?_⟩
  · refine Iff.trans ?_ mem_keys_shownEdges.symm
    simp only [List.mem_map, hmem, and_assoc]
    exact Iff.rfl
  · -- the relationships with the key of an edge join concepts, so they are all that prevail with it
    have hfind : arising.find? (fun r => decide (r ∈ relationships ∧ r.key = e.key)) =
        arising.find? fun r => decide (r.Prevails arising ∧ r.key = e.key) := by
      rw [← List.head?_filter, ← List.head?_filter]
      refine congrArg List.head? (List.filter_congr fun r hr => decide_eq_decide.2 (and_congr_left fun hkey => ?_))
      rw [hmem, Relationship.edge?_of_key_eq hkey]
      exact ⟨fun h => h.2.1, fun h => ⟨hr, h, rfl⟩⟩
    rw [hfind]
    exact mem_shownEdges_iff_find?.1 he

end Dimension

end TaxonomySet
