import TaxonomySet.Proofs.Relationship.Effective

namespace TaxonomySet

variable {resolve : Resolver} {links : List ExtendedLink} {l : ExtendedLink} {href : Href}

/-- Whether a reference stands under a label that an arc of the link leads from or to. -/
def ExtendedLink.Uses (l : ExtendedLink) (href : Href) : Prop :=
  ∃ arc ∈ l.arcList, ∃ label, (label = arc.source ∨ label = arc.target) ∧
    ∃ hrefs, l.locators.get? label = some hrefs ∧ href ∈ hrefs

theorem ExtendedLink.mem_unresolved_iff : href ∈ l.unresolved resolve ↔ resolve href = none ∧ l.Uses href := by
  have hunder (label : String) :
      href ∈ ((l.locators.get? label).getD []).filter (fun href => (resolve href).isNone) ↔
        resolve href = none ∧ ∃ hrefs, l.locators.get? label = some hrefs ∧ href ∈ hrefs := by
    cases l.locators.get? label <;> simp [and_comm]
  unfold unresolved Uses
  simp only [List.mem_flatMap, List.mem_cons, List.not_mem_nil, or_false, hunder]
  constructor
  · rintro ⟨arc, harc, label, hlabel, hnone, hrefs⟩
    exact ⟨hnone, arc, harc, label, hlabel, hrefs⟩
  · rintro ⟨hnone, arc, harc, label, hlabel, hrefs⟩
    exact ⟨arc, harc, label, hlabel, hnone, hrefs⟩

namespace Network

/-- The references that do not resolve, each with the links that use it, link by link. -/
def missing (resolve : Resolver) (links : List ExtendedLink) : List (Href × ExtendedLink) :=
  links.flatMap fun l => (l.unresolved resolve).map fun href => (href, l)

/-- The references that are reported, each with the link that it is reported for. -/
def reported (resolve : Resolver) (links : List ExtendedLink) : List (Href × ExtendedLink) :=
  (missing resolve links).eraseDupsBy fun a b => a.1 == b.1

theorem diagnostics_ofLinks (resolve : Resolver) (links : List ExtendedLink) :
    (ofLinks resolve links).diagnostics = (reported resolve links).map fun p => p.2.locatorTarget p.1 := rfl

theorem nodup_reported (resolve : Resolver) (links : List ExtendedLink) :
    ((reported resolve links).map (·.1)).Nodup :=
  (eraseDupsBy_sublist_nodup Prod.fst _).2

theorem mem_map_missing_iff :
    href ∈ (missing resolve links).map (·.1) ↔ resolve href = none ∧ ∃ l ∈ links, l.Uses href := by
  unfold missing
  simp only [List.mem_map, List.mem_flatMap, ExtendedLink.mem_unresolved_iff]
  constructor
  · rintro ⟨_, ⟨l, hl, href, ⟨hnone, huses⟩, rfl⟩, rfl⟩
    exact ⟨hnone, l, hl, huses⟩
  · rintro ⟨hnone, l, hl, huses⟩
    exact ⟨(href, l), ⟨l, hl, href, ⟨hnone, huses⟩, rfl⟩, rfl⟩

theorem find?_unresolved {p : Href × ExtendedLink} :
    ((l.unresolved resolve).map fun href => (href, l)).find? (fun q => q.1 == p.1) = some p ↔
      l = p.2 ∧ resolve p.1 = none ∧ l.Uses p.1 := by
  rw [← ExtendedLink.mem_unresolved_iff]
  constructor
  · intro h
    obtain ⟨href, hmem, rfl⟩ := List.mem_map.1 (List.mem_of_find?_eq_some h)
    exact ⟨rfl, hmem⟩
  · rintro ⟨rfl, hmem⟩
    have hsome : (((p.2.unresolved resolve).map fun href => (href, p.2)).find? fun q => q.1 == p.1).isSome = true :=
      List.find?_isSome.2 ⟨p, List.mem_map.2 ⟨p.1, hmem, rfl⟩, beq_self_eq_true p.1⟩
    obtain ⟨q, hq⟩ := Option.isSome_iff_exists.1 hsome
    obtain ⟨href, -, rfl⟩ := List.mem_map.1 (List.mem_of_find?_eq_some hq)
    have hhref : href = p.1 := by simpa using List.find?_some hq
    rw [hq, hhref]

/-- A reference is reported for the first link that uses it. -/
theorem exists_first_of_mem_reported {p : Href × ExtendedLink} (h : p ∈ reported resolve links) :
    ∃ before after, links = before ++ p.2 :: after ∧ p.2.Uses p.1 ∧ ∀ l ∈ before, ¬ l.Uses p.1 := by
  have hfirst := (mem_eraseDupsBy_iff Prod.fst).1 h
  unfold missing at hfirst
  rw [List.find?_flatMap, List.findSome?_eq_some_iff] at hfirst
  obtain ⟨before, l, after, hlinks, hfound, hbefore⟩ := hfirst
  obtain ⟨rfl, hnone, huses⟩ := find?_unresolved.1 hfound
  refine ⟨before, after, hlinks, huses, fun l hl hl' => ?_⟩
  have hnotfound := hbefore l hl
  rw [(find?_unresolved (p := (p.1, l))).2 ⟨rfl, hnone, hl'⟩] at hnotfound
  cases hnotfound

/-- Every reference that does not resolve and that an arc leads to is reported, and no other one is; each is reported
once, for the first link that uses it. A base set has all relationships between ends that the labels stand for, but
for those that an equivalent one overrides. -/
theorem ofLinks_unresolved (resolve : Resolver) (links : List ExtendedLink) :
    let n := ofLinks resolve links
    (∃ found : List (Href × ExtendedLink),
      n.diagnostics = found.map (fun p => p.2.locatorTarget p.1) ∧
      (found.map (·.1)).Nodup ∧
      (∀ href, href ∈ found.map (·.1) ↔ resolve href = none ∧ ∃ l ∈ links, l.Uses href) ∧
      ∀ p ∈ found, ∃ before after, links = before ++ p.2 :: after ∧ p.2.Uses p.1 ∧ ∀ l ∈ before, ¬ l.Uses p.1) ∧
    ∀ key r, r ∈ n.value.relationships key ↔
      key.Arises resolve links r ∧ ∀ s, key.Arises resolve links s → s.key = r.key →
        s.arc.priority.toInt ≤ r.arc.priority.toInt ∧
          (s.arc.priority.toInt = r.arc.priority.toInt → s.arc.use ≠ .prohibited) := by
  intro n
  refine ⟨⟨reported resolve links, diagnostics_ofLinks resolve links, nodup_reported resolve links, fun href => ?_,
    fun p => exists_first_of_mem_reported⟩, fun key r => ?_⟩
  · exact (mem_map_eraseDupsBy_iff Prod.fst).trans mem_map_missing_iff
  · refine mem_relationships_iff.trans ?_
    simp only [Relationship.Prevails, BaseSetKey.mem_arising_iff]

end Network

end TaxonomySet
