import TaxonomySet.Proofs.Relationship.Network
import TaxonomySet.Proofs.Sample

namespace TaxonomySet

/-- The ends that a label of a link stands for: what each locator under it points to, if anything is there, and each
resource under it. -/
def ExtendedLink.ends (l : ExtendedLink) (resolve : Resolver) (label : String) : List Endpoint :=
  ((l.locators.get? label).toList.flatten.flatMap fun href => (resolve href).toList) ++
    (l.resources.get? label).toList.flatten.map .resource

/-- The relationships that an arc of a link makes, the link being the one in place `i`: one for each two
ends that the labels of the arc stand for. -/
def ExtendedLink.made (l : ExtendedLink) (resolve : Resolver) (i : Nat) (arc : Arc) : List Relationship :=
  (l.ends resolve arc.source).flatMap fun source => (l.ends resolve arc.target).map fun target =>
    { source, target, arc, role := l.role, document := l.document, link := i }

/-- What the arcs of a base set make, overridden or not. -/
def BaseSetKey.arising (key : BaseSetKey) (resolve : Resolver) (links : List ExtendedLink) : List Relationship :=
  (links.zipIdx.filter fun l => decide (l.1.kind = key.kind ∧ l.1.role = key.role)).flatMap fun l =>
    (l.1.arcList.filter fun arc => arc.arcrole == key.arcrole).flatMap (l.1.made resolve l.2)

/-- Whether a relationship counts among others: none with its key has a higher priority, and none with
its key and priority is a prohibition. -/
def Relationship.Prevails (r : Relationship) (rs : List Relationship) : Prop :=
  ∀ s ∈ rs, s.key = r.key → s.arc.priority.toInt ≤ r.arc.priority.toInt ∧
    (s.arc.priority.toInt = r.arc.priority.toInt → s.arc.use ≠ .prohibited)

instance (r : Relationship) (rs : List Relationship) : Decidable (r.Prevails rs) :=
  inferInstanceAs (Decidable (∀ s ∈ rs, _))

/-- What a label of a link stands for, end by end: the target of a locator under it, or a resource under it. -/
def ExtendedLink.StandsFor (l : ExtendedLink) (resolve : Resolver) (label : String) (e : Endpoint) : Prop :=
  (∃ hrefs, l.locators.get? label = some hrefs ∧ ∃ href ∈ hrefs, resolve href = some e) ∨
    ∃ rs, l.resources.get? label = some rs ∧ ∃ r ∈ rs, e = .resource r

theorem ExtendedLink.endpoints_eq_ends (l : ExtendedLink) (resolve : Resolver) (label : String) :
    l.endpoints resolve label = l.ends resolve label := by
  have hunder {α : Type} (found : Option (List α)) : found.getD [] = found.toList.flatten := by
    cases found with
    | none => rfl
    | some xs => rw [Option.getD_some, Option.toList_some, List.flatten_singleton]
  unfold endpoints ends
  rw [hunder, hunder, List.filterMap_eq_flatMap_toList]

theorem ExtendedLink.mem_ends_iff {l : ExtendedLink} {resolve : Resolver} {label : String} {e : Endpoint} :
    e ∈ l.ends resolve label ↔ l.StandsFor resolve label e := by
  unfold ends StandsFor
  rw [List.mem_append, List.mem_flatMap, List.mem_map]
  refine or_congr ?_ ?_
  · cases l.locators.get? label <;> simp
  · cases l.resources.get? label <;> simp [eq_comm]

/-- A relationship arises in a base set: an arc of one of the links of the base set makes it, between two ends that
the labels of the arc stand for. -/
def BaseSetKey.Arises (key : BaseSetKey) (resolve : Resolver) (links : List ExtendedLink) (r : Relationship) : Prop :=
  ∃ l, links[r.link]? = some l ∧ r.arc ∈ l.arcList ∧ key = ⟨l.kind, l.role, r.arc.arcrole⟩ ∧
    l.StandsFor resolve r.arc.source r.source ∧ l.StandsFor resolve r.arc.target r.target ∧
    r.role = l.role ∧ r.document = l.document

theorem BaseSetKey.mem_arising_iff {key : BaseSetKey} {resolve : Resolver} {links : List ExtendedLink}
    {r : Relationship} : r ∈ key.arising resolve links ↔ key.Arises resolve links r := by
  unfold arising ExtendedLink.made
  simp only [List.mem_flatMap, List.mem_map, List.mem_filter, decide_eq_true_iff, beq_iff_eq,
    ExtendedLink.mem_ends_iff]
  constructor
  · rintro ⟨⟨l, i⟩, ⟨hl, hkind, hrole⟩, arc, ⟨harc, harcrole⟩, source, hsource, target, htarget, rfl⟩
    exact ⟨l, List.mem_zipIdx_iff_getElem?.1 hl, harc, by rw [hkind, hrole, harcrole], hsource, htarget, rfl, rfl⟩
  · rintro ⟨l, hl, harc, rfl, hsource, htarget, hrole, hdocument⟩
    refine ⟨(l, r.link), ⟨List.mem_zipIdx_iff_getElem?.2 hl, rfl, rfl⟩, r.arc, ⟨harc, rfl⟩, r.source, hsource,
      r.target, htarget, ?_⟩
    rw [← hrole, ← hdocument]

namespace BaseSet

theorem alike_flatten_groupsOf (rs : List Relationship) :
    Alike Relationship.key (groupsOf rs).values.flatten rs := by
  intro k
  have hkey {j : EquivalenceKey} {g : List Relationship} (hget : (groupsOf rs).get? j = some g) :
      ∀ r ∈ g, r.key = j := by
    rw [get?_groupsOf] at hget
    split at hget
    · cases hget
    · cases hget
      exact fun r hr => beq_iff_eq.1 (List.mem_filter.1 hr).2
  rw [SortedMap.filter_flatten_values Relationship.key hkey, get?_groupsOf]
  split
  · rename_i hnil
    rw [hnil]
    rfl
  · rfl

/-- What a group lets through is what prevails among all candidates: no other group holds equivalents. -/
theorem selectEffective_of_get?_groupsOf {rs g : List Relationship} {k : EquivalenceKey}
    (hget : (groupsOf rs).get? k = some g) : selectEffective g = g.filter fun r => decide (r.Prevails rs) := by
  rw [get?_groupsOf] at hget
  split at hget
  · cases hget
  cases hget
  rw [selectEffective_eq_filter]
  refine List.filter_congr fun r hr => decide_eq_decide.2 ?_
  have hr : r.key = k := beq_iff_eq.1 (List.mem_filter.1 hr).2
  have hprohibited (s : Relationship) : Overridable.isProhibited s = false ↔ s.arc.use ≠ .prohibited := by
    change (s.arc.use == .prohibited) = false ↔ _
    exact beq_eq_false_iff_ne
  simp only [List.mem_filter, beq_iff_eq, and_imp, hprohibited, Relationship.Prevails, hr]
  rfl

theorem prevailing_perm (rs : List Relationship) :
    (prevailing rs).Perm (rs.filter fun r => decide (r.Prevails rs)) := by
  have hvalues : (groupsOf rs).values.flatMap selectEffective =
      (groupsOf rs).values.flatten.filter fun r => decide (r.Prevails rs) := by
    rw [List.filter_flatten, ← List.flatMap_def]
    refine List.flatMap_congr fun g hg => ?_
    obtain ⟨k, hk⟩ := SortedMap.mem_values_iff.1 hg
    exact selectEffective_of_get?_groupsOf hk
  have hsorted : (prevailing rs).Perm ((groupsOf rs).values.flatMap selectEffective) := List.mergeSort_perm _ _
  rw [hvalues] at hsorted
  exact hsorted.trans ((alike_flatten_groupsOf rs).perm.filter _)

theorem pairwise_prevailing (rs : List Relationship) :
    (prevailing rs).Pairwise fun a b => (Relationship.order a b).isLE :=
  Order.pairwise_mergeSort _

end BaseSet

theorem flatMap_filter {α β : Type} (p : α → Bool) (f : α → List β) (xs : List α) :
    (xs.filter p).flatMap f = xs.flatMap fun x => if p x then f x else [] := by
  induction xs with
  | nil => rfl
  | cons x xs ih =>
    rw [List.flatMap_cons, ← ih, List.filter_cons]
    split
    · rw [List.flatMap_cons]
    · rw [List.nil_append]

namespace Network

theorem candidates_eq_made (resolve : Resolver) (l : ExtendedLink) (i : Nat) :
    l.candidates resolve i =
      l.arcList.flatMap fun arc => (l.made resolve i arc).map (⟨l.kind, l.role, arc.arcrole⟩, ·) := by
  unfold ExtendedLink.candidates ExtendedLink.made
  simp only [List.map_flatMap, List.map_map, ExtendedLink.endpoints_eq_ends]
  rfl

theorem candidatesOf_eq_arising (resolve : Resolver) (links : List ExtendedLink) (key : BaseSetKey) :
    candidatesOf resolve links key = key.arising resolve links := by
  -- what one arc makes is in one base set
  have harc (l : ExtendedLink) (i : Nat) (arc : Arc) :
      (((l.made resolve i arc).map ((⟨l.kind, l.role, arc.arcrole⟩ : BaseSetKey), ·)).filter (·.1 == key)).map (·.2) =
        if l.kind = key.kind ∧ l.role = key.role then
          if arc.arcrole == key.arcrole then l.made resolve i arc else []
        else [] := by
    rw [List.filter_map, List.map_map]
    change ((l.made resolve i arc).filter fun _ => (⟨l.kind, l.role, arc.arcrole⟩ : BaseSetKey) == key).map id = _
    rw [List.map_id]
    by_cases hkey : (⟨l.kind, l.role, arc.arcrole⟩ : BaseSetKey) = key
    · subst hkey
      simp
    · have hne : ¬ ((l.kind = key.kind ∧ l.role = key.role) ∧ arc.arcrole = key.arcrole) := by
        rintro ⟨⟨hkind, hrole⟩, harcrole⟩
        exact hkey (by rw [hkind, hrole, harcrole])
      rw [beq_eq_false_iff_ne.2 hkey]
      simp only [List.filter_false]
      split
      · rename_i hlink
        rw [if_neg fun h => hne ⟨hlink, beq_iff_eq.1 h⟩]
      · rfl
  unfold candidatesOf candidates BaseSetKey.arising
  rw [List.filter_flatMap, List.map_flatMap, flatMap_filter]
  refine List.flatMap_congr ?_
  rintro ⟨l, i⟩ -
  dsimp only
  rw [candidates_eq_made, List.filter_flatMap, List.map_flatMap, flatMap_filter]
  simp only [harc, decide_eq_true_eq]
  split
  · rfl
  · simp

theorem mem_relationships_iff {resolve : Resolver} {links : List ExtendedLink} {key : BaseSetKey} {r : Relationship} :
    r ∈ (ofLinks resolve links).value.relationships key ↔
      r ∈ key.arising resolve links ∧ r.Prevails (key.arising resolve links) := by
  rw [relationships_ofLinks, candidatesOf_eq_arising, (BaseSet.prevailing_perm _).mem_iff, List.mem_filter,
    decide_eq_true_iff]

/-- A base set has the relationships that arise in it and prevail among all that do, each as often as it
arises, sorted by source, order, target and document; those that arise are made by arcs between what their labels
stand for. Those of one concept are the ones among them that start from it, or lead to it. -/
theorem relationships_perm_arising (resolve : Resolver) (links : List ExtendedLink) (key : BaseSetKey) :
    let n := (ofLinks resolve links).value
    let arising := key.arising resolve links
    (∀ r, r ∈ arising ↔ key.Arises resolve links r) ∧
      (n.relationships key).Perm (arising.filter fun r => decide (r.Prevails arising)) ∧
      (n.relationships key).Pairwise (fun a b => (Relationship.order a b).isLE) ∧
      (∀ concept, n.childrenOf key concept =
        (n.relationships key).filter fun r => decide (r.source = .concept concept)) ∧
      ∀ concept, n.parentsOf key concept =
        (n.relationships key).filter fun r => decide (r.target = .concept concept) := by
  intro n arising
  have hprevailing : n.relationships key = BaseSet.prevailing arising :=
    (relationships_ofLinks resolve links key).trans
      (congrArg BaseSet.prevailing (candidatesOf_eq_arising resolve links key))
  refine ⟨fun r => BaseSetKey.mem_arising_iff, ?_, ?_, childrenOf_ofLinks resolve links key,
    parentsOf_ofLinks resolve links key⟩
  · rw [hprevailing]
    exact BaseSet.prevailing_perm arising
  · rw [hprevailing]
    exact BaseSet.pairwise_prevailing arising

/-- Networks of links that are alike for each document give the same answers for every base set and every
concept, but for the numbers of the links. -/
theorem ofLinks_congr (resolve : Resolver) {links others : List ExtendedLink}
    (h : Alike (·.document) links others) (key : BaseSetKey) :
    let n := (ofLinks resolve links).value
    let m := (ofLinks resolve others).value
    (n.relationships key).map Relationship.unlinked = (m.relationships key).map Relationship.unlinked ∧
      (∀ concept, (n.childrenOf key concept).map Relationship.unlinked =
        (m.childrenOf key concept).map Relationship.unlinked) ∧
      ∀ concept, (n.parentsOf key concept).map Relationship.unlinked =
        (m.parentsOf key concept).map Relationship.unlinked := by
  intro n m
  have hrelationships : (n.relationships key).map Relationship.unlinked =
      (m.relationships key).map Relationship.unlinked := relationships_congr resolve h key
  -- the ends of a relationship do not depend on the number of its link
  have hfilter (p : Endpoint × Endpoint → Bool) (rs : List Relationship) :
      (rs.filter fun r => p (r.source, r.target)).map Relationship.unlinked =
        (rs.map Relationship.unlinked).filter fun r => p (r.source, r.target) := by
    rw [List.filter_map]
    rfl
  refine ⟨hrelationships, fun concept => ?_, fun concept => ?_⟩
  · rw [childrenOf_ofLinks, childrenOf_ofLinks, hfilter fun e => e.1 == .concept concept,
      hfilter fun e => e.1 == .concept concept, hrelationships]
  · rw [parentsOf_ofLinks, parentsOf_ofLinks, hfilter fun e => e.2 == .concept concept,
      hfilter fun e => e.2 == .concept concept, hrelationships]

/-- Two documents of which one takes back an arc of the other and repeats its second one. -/
def crossing : ExtendedLink × ExtendedLink :=
  (Sample.link "r" [Sample.arc .domainMember "p" "m" none, Sample.arc .domainMember "p" "q" none],
    { Sample.link "r" [{ Sample.arc .domainMember "p" "m" none with priority := 1, use := .prohibited },
        Sample.arc .domainMember "p" "q" none] with document := "more.xml" })

/-- Of the four relationships that arise, two are left, whichever document was read first. -/
theorem ofLinks_congr_crossing :
    let resolve : Resolver := fun href => href.fragment.map fun id => .concept (Sample.name id)
    let n := (ofLinks resolve [crossing.1, crossing.2]).value
    let m := (ofLinks resolve [crossing.2, crossing.1]).value
    let key : BaseSetKey := ⟨.definition, "r", Dimension.Arcrole.domainMember.uri⟩
    Alike (·.document) [crossing.1, crossing.2] [crossing.2, crossing.1] ∧
      (n.relationships key).map Relationship.unlinked = (m.relationships key).map Relationship.unlinked ∧
      (n.relationships key).length = 2 := by
  intro resolve n m key
  have halike : Alike (·.document) [crossing.1, crossing.2] [crossing.2, crossing.1] := by
    intro document
    have hfirst : crossing.1.document = "links.xml" := rfl
    have hsecond : crossing.2.document = "more.xml" := rfl
    by_cases h : document = "links.xml"
    · simp [hfirst, hsecond, h]
    · simp [List.filter_cons, hfirst, hsecond, Ne.symm h]
  refine ⟨halike, (ofLinks_congr resolve halike key).1, ?_⟩
  have hlength := (BaseSet.prevailing_perm (candidatesOf resolve [crossing.1, crossing.2] key)).length_eq
  rw [← relationships_ofLinks] at hlength
  exact hlength.trans (by decide +kernel)

end Network

end TaxonomySet
