import TaxonomySet.Link.Reader
import TaxonomySet.Proofs.Sorted

namespace TaxonomySet.ExtendedLink

open Markup

/-- The children of a link that are of one type, in document order. -/
def childrenOf (type : String) (children : List Node) : List Node := children.filter (·.xlink? "type" == some type)

/-- The locators among the children of a link, with their labels. -/
def locatorsIn (location : String) (children : List Node) : List (String × Href) :=
  (childrenOf "locator" children).filterMap fun c => (readLocator location c).value

/-- The resources among the children of a link. -/
def resourcesIn (location : String) (children : List Node) : List Resource :=
  (childrenOf "resource" children).filterMap fun c => (readResource location c).value

/-- A link with locators and resources added. -/
def withEnds (location : String) (l : ExtendedLink) (children : List Node) : ExtendedLink :=
  { l with
    locators := (locatorsIn location children).foldl (fun m e => m.push e.1 e.2) l.locators
    resources := (resourcesIn location children).foldl (fun m r => m.push r.label r) l.resources }

theorem childrenOf_cons (type : String) (c : Node) (children : List Node) : childrenOf type (c :: children) =
    if c.xlink? "type" = some type then c :: childrenOf type children else childrenOf type children := by
  unfold childrenOf
  rw [List.filter_cons]
  simp only [beq_iff_eq]

theorem value_foldl_addEnds (location : String) (children : List Node) (acc : Reported ExtendedLink) :
    (children.foldl (addEnds location) acc).value = withEnds location acc.value children := by
  induction children generalizing acc with
  | nil => rfl
  | cons c children ih =>
    rw [List.foldl_cons, ih]
    unfold withEnds locatorsIn resourcesIn addEnds
    simp only [childrenOf_cons]
    by_cases hlocator : c.xlink? "type" = some "locator"
    · simp only [hlocator]
      cases hread : (readLocator location c).value <;> simp [hread]
    · by_cases hresource : c.xlink? "type" = some "resource"
      · simp only [hresource]
        cases hread : (readResource location c).value <;> simp [hread]
      · simp [hlocator, hresource]

/-- The arcs of a link are those between any two labels. -/
theorem mem_arcList_iff {l : ExtendedLink} {a : Arc} :
    a ∈ l.arcList ↔ ∃ source target, a ∈ l.arcsBetween source target := by
  unfold arcList arcsBetween
  rw [List.mem_flatMap]
  constructor
  · rintro ⟨targets, htargets, ha⟩
    obtain ⟨as, has, ha⟩ := List.mem_flatten.1 ha
    obtain ⟨source, hsource⟩ := SortedMap.mem_values_iff.1 htargets
    obtain ⟨target, htarget⟩ := SortedMap.mem_values_iff.1 has
    exact ⟨source, target, by rwa [hsource, Option.bind_some, htarget]⟩
  · rintro ⟨source, target, ha⟩
    cases hsource : l.arcs.get? source with
    | none => simp [hsource] at ha
    | some targets =>
      rw [hsource, Option.bind_some] at ha
      cases htarget : targets.get? target with
      | none => simp [htarget] at ha
      | some as =>
        rw [htarget] at ha
        exact ⟨targets, SortedMap.mem_values_of_get? hsource,
          List.mem_flatten.2 ⟨as, SortedMap.mem_values_of_get? htarget, ha⟩⟩

theorem arcsBetween_eq_nil {l : ExtendedLink} (h : l.arcs = ∅) (source target : String) :
    l.arcsBetween source target = [] := by
  unfold arcsBetween
  rw [h]
  rfl

/-- An arc is added behind those between the same labels. -/
theorem arcsBetween_addArc (l : ExtendedLink) (a : Arc) (source target : String) :
    (l.addArc a).arcsBetween source target =
      l.arcsBetween source target ++ if a.source = source ∧ a.target = target then [a] else [] := by
  unfold addArc arcsBetween
  dsimp only
  by_cases hsource : source = a.source
  · subst hsource
    rw [SortedMap.get?_alter_self, Option.bind_some]
    unfold SortedMap.push
    by_cases htarget : target = a.target
    · subst htarget
      rw [SortedMap.get?_alter_self]
      cases l.arcs.get? a.source <;> simp
    · rw [SortedMap.get?_alter_of_ne _ _ htarget]
      cases l.arcs.get? a.source <;> simp [Ne.symm htarget]
  · rw [SortedMap.get?_alter_of_ne _ _ hsource]
    simp [Ne.symm hsource]

theorem arcsBetween_foldl_addArc (as : List Arc) (l : ExtendedLink) (source target : String) :
    (as.foldl addArc l).arcsBetween source target =
      l.arcsBetween source target ++ as.filter fun a => decide (a.source = source ∧ a.target = target) := by
  induction as generalizing l with
  | nil => simp
  | cons a as ih =>
    rw [List.foldl_cons, ih, arcsBetween_addArc, List.append_assoc, List.filter_cons]
    split <;> simp_all

/-- Arcs that are added leave the rest of a link as it is. -/
theorem exists_foldl_addArc (as : List Arc) (l : ExtendedLink) : ∃ arcs, as.foldl addArc l = { l with arcs } := by
  induction as generalizing l with
  | nil => exact ⟨l.arcs, rfl⟩
  | cons a as ih =>
    obtain ⟨arcs, harcs⟩ := ih (l.addArc a)
    exact ⟨arcs, harcs⟩

theorem value_foldl_addReadArc (location : String) (rs : List (Reported (Option Arc))) (acc : Reported ExtendedLink) :
    (rs.foldl (addReadArc location) acc).value = (rs.filterMap Reported.value).foldl addArc acc.value := by
  induction rs generalizing acc with
  | nil => rfl
  | cons r rs ih =>
    rw [List.foldl_cons, ih, List.filterMap_cons]
    unfold addReadArc
    cases r.value <;> rfl

/-- The content of a link: what its labels stand for, and the arcs that are read between them. -/
theorem value_readContent (registry : Registry) (location : String) (l : ExtendedLink) (children : List Node) :
    (readContent registry location l children).value = ((childrenOf "arc" children).filterMap fun c =>
      (readArc registry location (withEnds location l children) c).value).foldl addArc
        (withEnds location l children) := by
  unfold readContent
  dsimp only
  rw [value_foldl_addReadArc, value_foldl_addEnds, List.filterMap_map]
  rfl

end TaxonomySet.ExtendedLink
