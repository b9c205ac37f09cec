import TaxonomySet.Proofs.Role.Gathering

namespace TaxonomySet

namespace Registry

/-- Whether a registry declares all that another one declares, and for no fewer elements. -/
structure Extends (later earlier : Registry) : Prop where
  role : ∀ {uri r}, earlier.roles.get? uri = some r →
    ∃ r', later.roles.get? uri = some r' ∧ r'.usedOn.includes r.usedOn = true
  arcrole : ∀ {uri a}, earlier.arcroles.get? uri = some a →
    ∃ a', later.arcroles.get? uri = some a' ∧ a'.usedOn.includes a.usedOn = true

namespace Extends

variable {r s t : Registry}

theorem refl (r : Registry) : r.Extends r :=
  ⟨fun h => ⟨_, h, UsedOn.includes_self _⟩, fun h => ⟨_, h, UsedOn.includes_self _⟩⟩

theorem trans (h : t.Extends s) (h' : s.Extends r) : t.Extends r where
  role hr := by
    obtain ⟨r', hr', hwide⟩ := h'.role hr
    obtain ⟨r'', hr'', hwider⟩ := h.role hr'
    exact ⟨r'', hr'', UsedOn.includes_trans hwider hwide⟩
  arcrole ha := by
    obtain ⟨a', ha', hwide⟩ := h'.arcrole ha
    obtain ⟨a'', ha'', hwider⟩ := h.arcrole ha'
    exact ⟨a'', ha'', UsedOn.includes_trans hwider hwide⟩

/-- A role that may be used on an element may still be used on it. -/
theorem allowsRole (h : s.Extends r) {uri : String} {element : QName} (hallows : r.allowsRole uri element = true) :
    s.allowsRole uri element = true := by
  unfold Registry.allowsRole at hallows ⊢
  rcases Bool.or_eq_true_iff.1 hallows with hstandard | hdeclared
  · rw [hstandard, Bool.true_or]
  · obtain ⟨role, hrole, hcontains⟩ := (Option.any_eq_true _ _).1 hdeclared
    obtain ⟨role', hrole', hwide⟩ := h.role hrole
    rw [hrole', Option.any_some, UsedOn.contains_of_includes hwide hcontains, Bool.or_true]

/-- An arcrole that may be used on an element may still be used on it, unless it needed no declaration and has one
now that leaves the element out. -/
theorem allowsArcrole (h : s.Extends r) {uri : String} {element : QName}
    (hallows : r.allowsArcrole uri element = true) : s.allowsArcrole uri element = true ∨
      r.arcroles.get? uri = none ∧ ∃ a, s.arcroles.get? uri = some a ∧ a.usedOn.contains element = false := by
  unfold Registry.allowsArcrole at hallows ⊢
  cases hdeclared : r.arcroles.get? uri with
  | some a =>
    rw [hdeclared] at hallows
    obtain ⟨a', ha', hwide⟩ := h.arcrole hdeclared
    rw [ha']
    exact .inl (UsedOn.contains_of_includes hwide hallows)
  | none =>
    rw [hdeclared] at hallows
    cases hlater : s.arcroles.get? uri with
    | none => exact .inl hallows
    | some a =>
      cases hcontains : a.usedOn.contains element with
      | true => exact .inl hcontains
      | false => exact .inr ⟨rfl, a, rfl, hcontains⟩

end Extends

theorem extends_withRole (r : Registry) (role : RoleType) : (r.withRole role).Extends r := by
  rw [withRole_eq]
  refine ⟨fun {uri old} hold => ?_, fun h => ⟨_, h, UsedOn.includes_self _⟩⟩
  dsimp only
  by_cases huri : uri = role.uri
  · subst huri
    rw [SortedMap.get?_update_self, hold]
    unfold RoleType.merged
    dsimp only
    split
    · exact ⟨_, rfl, UsedOn.includes_union_left _ _⟩
    · exact ⟨_, rfl, UsedOn.includes_self _⟩
  · rw [SortedMap.get?_update_of_ne _ _ huri]
    exact ⟨old, hold, UsedOn.includes_self _⟩

theorem extends_withArcrole (r : Registry) (arcrole : ArcroleType) : (r.withArcrole arcrole).Extends r := by
  rw [withArcrole_eq]
  refine ⟨fun h => ⟨_, h, UsedOn.includes_self _⟩, fun {uri old} hold => ?_⟩
  dsimp only
  by_cases huri : uri = arcrole.uri
  · subst huri
    rw [SortedMap.get?_update_self, hold]
    unfold ArcroleType.merged
    dsimp only
    split
    · exact ⟨_, rfl, UsedOn.includes_union_left _ _⟩
    · exact ⟨_, rfl, UsedOn.includes_self _⟩
  · rw [SortedMap.get?_update_of_ne _ _ huri]
    exact ⟨old, hold, UsedOn.includes_self _⟩

/-- Declarations that are added leave a registry that extends the one before. -/
theorem extends_addAll (r : Registry) (roles : List RoleType) (arcroles : List ArcroleType) :
    (r.addAll roles arcroles).value.Extends r := by
  rw [value_addAll]
  have hroles : (roles.foldl withRole r).Extends r :=
    List.foldlRecOn (motive := fun s : Registry => s.Extends r) _ _ (.refl r)
      fun s hs role _ => (s.extends_withRole role).trans hs
  exact List.foldlRecOn (motive := fun s : Registry => s.Extends r) _ _ hroles
    fun s hs arcrole _ => (s.extends_withArcrole arcrole).trans hs

end Registry

end TaxonomySet
