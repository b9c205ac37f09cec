import TaxonomySet.Proofs.Role.Elements
import TaxonomySet.Role.Registry

namespace TaxonomySet

/-- What a registry keeps for a role that is declared, or declared again; none if that is a
conflict. -/
def RoleType.merged (old : Option RoleType) (role : RoleType) : Option RoleType :=
  match old with
  | none => some role
  | some old =>
    if old.usedOn.nests role.usedOn then
      some { old with
        usedOn := old.usedOn.union role.usedOn
        definition := old.definition.or role.definition }
    else none

/-- What a registry keeps for an arcrole that is declared, or declared again. -/
def ArcroleType.merged (old : Option ArcroleType) (arcrole : ArcroleType) : Option ArcroleType :=
  match old with
  | none => some arcrole
  | some old =>
    if old.cycles = arcrole.cycles ∧ old.usedOn.nests arcrole.usedOn = true then
      some { old with
        usedOn := old.usedOn.union arcrole.usedOn
        definition := old.definition.or arcrole.definition }
    else none

namespace Registry

/-- The registry after a role has been added, or left as it is. -/
def withRole (r : Registry) (role : RoleType) : Registry :=
  match r.addRole role with
  | .ok r => r
  | .error _ => r

/-- The registry after an arcrole has been added, or left as it is. -/
def withArcrole (r : Registry) (arcrole : ArcroleType) : Registry :=
  match r.addArcrole arcrole with
  | .ok r => r
  | .error _ => r

theorem value_addAll (r : Registry) (roles : List RoleType) (arcroles : List ArcroleType) :
    (r.addAll roles arcroles).value = arcroles.foldl withArcrole (roles.foldl withRole r) := by
  have hroles (acc : Reported Registry) : (roles.foldl (fun (acc : Reported Registry) role =>
      match acc.value.addRole role with
      | .ok r => ⟨r, acc.diagnostics⟩
      | .error c => ⟨acc.value, acc.diagnostics ++ [c.diagnostic]⟩) acc).value =
        roles.foldl withRole acc.value := by
    induction roles generalizing acc with
    | nil => rfl
    | cons role roles ih =>
      rw [List.foldl_cons, List.foldl_cons, ih]
      unfold withRole
      cases acc.value.addRole role <;> rfl
  have harcroles (acc : Reported Registry) : (arcroles.foldl (fun (acc : Reported Registry) arcrole =>
      match acc.value.addArcrole arcrole with
      | .ok r => ⟨r, acc.diagnostics⟩
      | .error c => ⟨acc.value, acc.diagnostics ++ [c.diagnostic]⟩) acc).value =
        arcroles.foldl withArcrole acc.value := by
    induction arcroles generalizing acc with
    | nil => rfl
    | cons arcrole arcroles ih =>
      rw [List.foldl_cons, List.foldl_cons, ih]
      unfold withArcrole
      cases acc.value.addArcrole arcrole <;> rfl
  exact (harcroles _).trans (congrArg (arcroles.foldl withArcrole) (hroles ⟨r, []⟩))

theorem withRole_eq (r : Registry) (role : RoleType) :
    r.withRole role = { r with roles := r.roles.update RoleType.merged (·.uri) role } := by
  unfold withRole addRole SortedMap.update RoleType.merged
  cases r.roles.get? role.uri with
  | none => rfl
  | some old => cases hnests : old.usedOn.nests role.usedOn <;> simp [hnests]

theorem withArcrole_eq (r : Registry) (arcrole : ArcroleType) :
    r.withArcrole arcrole =
      { r with arcroles := r.arcroles.update ArcroleType.merged (·.uri) arcrole } := by
  unfold withArcrole addArcrole SortedMap.update ArcroleType.merged
  cases r.arcroles.get? arcrole.uri with
  | none => rfl
  | some old =>
    by_cases hcycles : old.cycles = arcrole.cycles
    · cases hnests : old.usedOn.nests arcrole.usedOn <;> simp [hcycles, hnests]
    · simp [hcycles]

theorem foldl_withRole (r : Registry) (roles : List RoleType) :
    roles.foldl withRole r =
      { r with roles := roles.foldl (SortedMap.update RoleType.merged (·.uri)) r.roles } := by
  induction roles generalizing r with
  | nil => rfl
  | cons role roles ih => rw [List.foldl_cons, List.foldl_cons, ih, withRole_eq]

theorem foldl_withArcrole (r : Registry) (arcroles : List ArcroleType) :
    arcroles.foldl withArcrole r =
      { r with arcroles := arcroles.foldl (SortedMap.update ArcroleType.merged (·.uri)) r.arcroles } := by
  induction arcroles generalizing r with
  | nil => rfl
  | cons arcrole arcroles ih => rw [List.foldl_cons, List.foldl_cons, ih, withArcrole_eq]

theorem get?_roles_addAll (r : Registry) {roles : List RoleType} (arcroles : List ArcroleType)
    (hdistinct : (roles.map (·.uri)).Nodup) (uri : String) :
    (r.addAll roles arcroles).value.roles.get? uri =
      ((roles.find? (·.uri == uri)).bind (RoleType.merged (r.roles.get? uri))).or (r.roles.get? uri) := by
  rw [value_addAll, foldl_withArcrole, foldl_withRole]
  exact SortedMap.get?_foldl_update RoleType.merged hdistinct r.roles uri

theorem get?_arcroles_addAll (r : Registry) (roles : List RoleType) {arcroles : List ArcroleType}
    (hdistinct : (arcroles.map (·.uri)).Nodup) (uri : String) :
    (r.addAll roles arcroles).value.arcroles.get? uri =
      ((arcroles.find? (·.uri == uri)).bind (ArcroleType.merged (r.arcroles.get? uri))).or
        (r.arcroles.get? uri) := by
  rw [value_addAll, foldl_withArcrole, foldl_withRole]
  exact SortedMap.get?_foldl_update ArcroleType.merged hdistinct r.arcroles uri

/-- Declarations are kept under their URIs. -/
structure Keyed (r : Registry) : Prop where
  role_uri : ∀ {uri role}, r.roles.get? uri = some role → role.uri = uri
  arcrole_uri : ∀ {uri arcrole}, r.arcroles.get? uri = some arcrole → arcrole.uri = uri

theorem keyed_empty : Keyed {} where
  role_uri h := by cases h
  arcrole_uri h := by cases h

theorem uri_of_merged_role {old : Option RoleType} {role kept : RoleType} (h : RoleType.merged old role = some kept)
    (hold : ∀ o, old = some o → o.uri = role.uri) : kept.uri = role.uri := by
  unfold RoleType.merged at h
  split at h
  · cases h
    rfl
  · rename_i old
    split at h
    · cases h
      exact hold old rfl
    · cases h

theorem uri_of_merged_arcrole {old : Option ArcroleType} {arcrole kept : ArcroleType}
    (h : ArcroleType.merged old arcrole = some kept) (hold : ∀ o, old = some o → o.uri = arcrole.uri) :
    kept.uri = arcrole.uri := by
  unfold ArcroleType.merged at h
  split at h
  · cases h
    rfl
  · rename_i old
    split at h
    · cases h
      exact hold old rfl
    · cases h

theorem Keyed.withRole {r : Registry} (h : r.Keyed) (role : RoleType) : (r.withRole role).Keyed := by
  rw [withRole_eq]
  exact ⟨SortedMap.keyed_update uri_of_merged_role h.role_uri role, h.arcrole_uri⟩

theorem Keyed.withArcrole {r : Registry} (h : r.Keyed) (arcrole : ArcroleType) :
    (r.withArcrole arcrole).Keyed := by
  rw [withArcrole_eq]
  exact ⟨h.role_uri, SortedMap.keyed_update uri_of_merged_arcrole h.arcrole_uri arcrole⟩

theorem Keyed.addAll {r : Registry} (h : r.Keyed) (roles : List RoleType) (arcroles : List ArcroleType) :
    (r.addAll roles arcroles).value.Keyed := by
  rw [value_addAll]
  have hroles : (roles.foldl Registry.withRole r).Keyed :=
    List.foldlRecOn _ _ h fun _ hr role _ => hr.withRole role
  exact List.foldlRecOn _ _ hroles fun _ hr arcrole _ => hr.withArcrole arcrole

/-- The declarations of a registry make up the registry again. -/
theorem value_addAll_values {r : Registry} (h : r.Keyed) :
    (({} : Registry).addAll r.roles.values r.arcroles.values).value = r := by
  have hroles : (({} : Registry).addAll r.roles.values r.arcroles.values).value.roles = r.roles := by
    refine SortedMap.ext_get? fun uri => ?_
    rw [get?_roles_addAll _ _ (SortedMap.nodup_map_values h.role_uri), SortedMap.find?_values h.role_uri]
    cases r.roles.get? uri <;> rfl
  have harcroles : (({} : Registry).addAll r.roles.values r.arcroles.values).value.arcroles = r.arcroles := by
    refine SortedMap.ext_get? fun uri => ?_
    rw [get?_arcroles_addAll _ _ (SortedMap.nodup_map_values h.arcrole_uri),
      SortedMap.find?_values h.arcrole_uri]
    cases r.arcroles.get? uri <;> rfl
  cases hvalue : (({} : Registry).addAll r.roles.values r.arcroles.values).value with
  | mk roles arcroles =>
    rw [hvalue] at hroles harcroles
    cases hroles
    cases harcroles
    rfl

end Registry

/-- What is kept of two declarations if the later one is only taken for other elements. -/
def overlay {α : Type} (usedOn : α → UsedOn) (merged : Option α → α → Option α) (base later : Option α) :
    Option α :=
  ((later.filter fun l => !base.any (usedOn · == usedOn l)).bind (merged base)).or base

/-- The later of two declarations shows if it shows over each that there is. -/
theorem map_overlay_eq_iff {α β : Type} {usedOn : α → UsedOn} {merged : Option α → α → Option α} {answer : α → β}
    {widens : α → α → Prop} (hnone : ∀ a, merged none a = some a)
    (h : ∀ b l, (overlay usedOn merged (some b) (some l)).map answer = some (answer l) ↔ widens l b)
    {base later : Option α} : (overlay usedOn merged base later).map answer = later.map answer ↔
      ∀ b, base = some b → ∃ l, later = some l ∧ widens l b := by
  cases base with
  | none => cases later <;> simp [overlay, Option.filter_some, hnone]
  | some b =>
    cases later with
    | none => simp [overlay]
    | some l => simpa using h b l

theorem overlay_of_eq {α : Type} {usedOn : α → UsedOn} {merged : Option α → α → Option α} {b l : α}
    (h : usedOn b = usedOn l) : overlay usedOn merged (some b) (some l) = some b := by
  simp [overlay, Option.filter_some, h]

theorem overlay_of_ne {α : Type} {usedOn : α → UsedOn} {merged : Option α → α → Option α} {b l : α}
    (h : usedOn b ≠ usedOn l) :
    overlay usedOn merged (some b) (some l) = (merged (some b) l).or (some b) := by
  simp [overlay, Option.filter_some, h]

theorem or_eq_right_iff {α : Type} {a b : Option α} : a.or b = b ↔ b = a ∨ a = none := by
  cases a with
  | none => simp
  | some a => simp [eq_comm]

/-- What is answered about a role. -/
def RoleType.answer (r : RoleType) : UsedOn × Option String := (r.usedOn, r.definition)

/-- What is answered about an arcrole. -/
def ArcroleType.answer (a : ArcroleType) : UsedOn × Option String × Cycles := (a.usedOn, a.definition, a.cycles)

/-- A declaration of a role that says all that an earlier one says. It may add a definition only if it
adds an element as well. -/
def RoleType.Widens (later earlier : RoleType) : Prop :=
  later.usedOn.includes earlier.usedOn = true ∧
    (later.definition = earlier.definition ∨ earlier.definition = none ∧ later.usedOn ≠ earlier.usedOn)

/-- A declaration of an arcrole that says all that an earlier one says. -/
def ArcroleType.Widens (later earlier : ArcroleType) : Prop :=
  later.usedOn.includes earlier.usedOn = true ∧ later.cycles = earlier.cycles ∧
    (later.definition = earlier.definition ∨ earlier.definition = none ∧ later.usedOn ≠ earlier.usedOn)

instance (later earlier : RoleType) : Decidable (later.Widens earlier) :=
  inferInstanceAs (Decidable (_ ∧ _))

theorem RoleType.Widens.refl (r : RoleType) : r.Widens r := ⟨r.usedOn.includes_self, .inl rfl⟩

theorem ArcroleType.Widens.refl (a : ArcroleType) : a.Widens a := ⟨a.usedOn.includes_self, rfl, .inl rfl⟩

/-- The later declaration of a role shows exactly if it says all that the base says. -/
theorem RoleType.answer_overlay_iff {base later : Option RoleType} :
    (overlay usedOn merged base later).map answer = later.map answer ↔
      ∀ b, base = some b → ∃ l, later = some l ∧ l.Widens b := by
  refine map_overlay_eq_iff (fun _ => rfl) fun b l => ?_
  by_cases hsame : b.usedOn = l.usedOn
  · rw [overlay_of_eq hsame]
    simp [answer, Widens, hsame, UsedOn.includes_self, eq_comm]
  · rw [overlay_of_ne hsame]
    by_cases hnests : b.usedOn.nests l.usedOn = true
    · simp [merged, hnests, answer, Widens, UsedOn.union_eq_right_iff, or_eq_right_iff, Ne.symm hsame]
    · have hnot : ¬ l.usedOn.includes b.usedOn = true := by
        intro hincludes
        exact hnests (by simp [UsedOn.nests, hincludes])
      simp [merged, hnests, answer, Widens, hnot, hsame]

/-- The later declaration of an arcrole shows exactly if it says all that the base says. -/
theorem ArcroleType.answer_overlay_iff {base later : Option ArcroleType} :
    (overlay usedOn merged base later).map answer = later.map answer ↔
      ∀ b, base = some b → ∃ l, later = some l ∧ l.Widens b := by
  refine map_overlay_eq_iff (fun _ => rfl) fun b l => ?_
  by_cases hsame : b.usedOn = l.usedOn
  · rw [overlay_of_eq hsame]
    simp [answer, Widens, hsame, UsedOn.includes_self, eq_comm, and_comm]
  · rw [overlay_of_ne hsame]
    by_cases hkept : b.cycles = l.cycles ∧ b.usedOn.nests l.usedOn = true
    · simp [merged, hkept, answer, Widens, UsedOn.union_eq_right_iff, or_eq_right_iff, Ne.symm hsame]
    · have hnot : ¬ l.Widens b := by
        rintro ⟨hincludes, hcycles, -⟩
        exact hkept ⟨hcycles.symm, by simp [UsedOn.nests, hincludes]⟩
      simp [merged, hkept, answer, hnot, hsame]

namespace Registry

/-- What is answered about the role with a URI. -/
def roleAnswer? (r : Registry) (uri : String) : Option (UsedOn × Option String) :=
  (r.roles.get? uri).map RoleType.answer

/-- What is answered about the arcrole with a URI. -/
def arcroleAnswer? (r : Registry) (uri : String) : Option (UsedOn × Option String × Cycles) :=
  (r.arcroles.get? uri).map ArcroleType.answer

/-- Whether a registry says all that an earlier one says about a role. -/
def KeepsRole (later earlier : Registry) (uri : String) : Prop :=
  ∀ a ∈ earlier.roles.get? uri, ∃ b ∈ later.roles.get? uri, b.Widens a

/-- Whether a registry says all that an earlier one says about an arcrole. -/
def KeepsArcrole (later earlier : Registry) (uri : String) : Prop :=
  ∀ a ∈ earlier.arcroles.get? uri, ∃ b ∈ later.arcroles.get? uri, b.Widens a

theorem KeepsRole.refl (r : Registry) (uri : String) : r.KeepsRole r uri := fun a ha => ⟨a, ha, .refl a⟩

theorem KeepsArcrole.refl (r : Registry) (uri : String) : r.KeepsArcrole r uri := fun a ha => ⟨a, ha, .refl a⟩

instance (later earlier : Registry) (uri : String) : Decidable (later.KeepsRole earlier uri) :=
  inferInstanceAs (Decidable (∀ a ∈ earlier.roles.get? uri, ∃ b ∈ later.roles.get? uri, b.Widens a))

end Registry

end TaxonomySet
