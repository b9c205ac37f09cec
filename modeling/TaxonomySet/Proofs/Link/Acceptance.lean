import TaxonomySet.Proofs.Link.Reading
import TaxonomySet.Proofs.Role.Extension

namespace TaxonomySet.ExtendedLink

open Markup

variable {registry : Registry} {location : String}

/-- A link with a role is accepted exactly if the role may be used on it. -/
theorem isSome_readLink {n : Node} {role : String} (hrole : n.xlink? "role" = some role) :
    (readLink registry location n).value.isSome = registry.allowsRole role n.name := by
  unfold readLink
  rw [hrole]
  dsimp only
  cases hallows : registry.allowsRole role n.name <;> rfl

/-- What is read from an accepted link is its content. -/
theorem readLink_eq_some {n : Node} {l : ExtendedLink} (h : (readLink registry location n).value = some l) :
    ∃ role, n.xlink? "role" = some role ∧ registry.allowsRole role n.name = true ∧ l = (readContent registry location
      { kind := .ofElement n.name, element := n.name, role := role, document := location } n.children).value := by
  unfold readLink at h
  split at h
  · cases h
  · rename_i role hrole
    split at h
    · rename_i hallows
      exact ⟨role, hrole, hallows, (Option.some_inj.1 h).symm⟩
    · cases h

/-- A registry that extends another one accepts all that the other one accepts. -/
theorem exists_readLink_of_extends {later : Registry} (hextends : later.Extends registry) {n : Node} {l : ExtendedLink}
    (h : (readLink registry location n).value = some l) : ∃ l', (readLink later location n).value = some l' := by
  obtain ⟨role, hrole, hallows, -⟩ := readLink_eq_some h
  rw [← Option.isSome_iff_exists, isSome_readLink hrole]
  exact hextends.allowsRole hallows

theorem allowsArcrole_of_readArc {l : ExtendedLink} {n : Node} {a : Arc}
    (h : (readArc registry location l n).value = some a) : registry.allowsArcrole a.arcrole a.element = true := by
  unfold readArc at h
  split at h
  · split at h
    · cases h
    · rename_i hallows
      rw [Bool.not_eq_true', Bool.not_eq_false] at hallows
      split at h
      · cases h
      · cases Option.some_inj.1 h
        exact hallows
  · cases h

/-- The arcs of an accepted link are those whose arcroles may be used on them. -/
theorem allowsArcrole_of_mem_readContent {l : ExtendedLink} (hnone : l.arcs = ∅) {children : List Node} {a : Arc}
    (ha : a ∈ (readContent registry location l children).value.arcList) :
    registry.allowsArcrole a.arcrole a.element = true := by
  obtain ⟨source, target, ha⟩ := mem_arcList_iff.1 ha
  have hbefore : (withEnds location l children).arcsBetween source target = [] := arcsBetween_eq_nil hnone source target
  rw [value_readContent, arcsBetween_foldl_addArc, hbefore, List.nil_append] at ha
  obtain ⟨c, -, hread⟩ := List.mem_filterMap.1 (List.mem_of_mem_filter ha)
  exact allowsArcrole_of_readArc hread

end TaxonomySet.ExtendedLink
