import TaxonomySet.Proofs.Role.Registration

namespace TaxonomySet

section Gathers

variable {α β : Type} {uri : α → String} {rule : α → UsedOn × β} {merged : Option α → α → Option α}

/-- Whether declarations of one URI do not contradict each other: the elements that they name nest, and
they agree in all else. -/
def Compatible (u v : UsedOn × β) : Prop := u.1.nests v.1 = true ∧ u.2 = v.2

/-- A way of keeping a first declaration and of widening what is kept by one that does not contradict
it. -/
structure Merges (rule : α → UsedOn × β) (merged : Option α → α → Option α) : Prop where
  first : ∀ d, merged none d = some d
  later : ∀ {a d}, Compatible (rule a) (rule d) →
    ∃ b, merged (some a) d = some b ∧ rule b = ((rule a).1.union (rule d).1, (rule a).2)

/-- Whether what is kept by URI is what was declared: for each URI what one declaration says, and no less
than any declaration does. -/
structure Gathers (uri : α → String) (rule : α → UsedOn × β) (kept : SortedMap String α)
    (Declared : α → Prop) : Prop where
  declared : ∀ {k a}, kept.get? k = some a → ∃ d, Declared d ∧ uri d = k ∧ rule d = rule a
  covers : ∀ {d}, Declared d →
    ∃ a, kept.get? (uri d) = some a ∧ (rule a).1.includes (rule d).1 = true ∧ (rule a).2 = (rule d).2

namespace Gathers

variable {kept kept' : SortedMap String α} {Declared Declared' : α → Prop}

theorem congr (h : Gathers uri rule kept Declared) (hiff : ∀ d, Declared' d ↔ Declared d) :
    Gathers uri rule kept Declared' := by
  have heq : Declared' = Declared := funext fun d => propext (hiff d)
  rwa [heq]

/-- What is kept of the same declarations says the same. -/
theorem map_get?_eq (h : Gathers uri rule kept Declared) (h' : Gathers uri rule kept' Declared) (k : String) :
    (kept.get? k).map rule = (kept'.get? k).map rule := by
  have hwider {kept kept' : SortedMap String α} (h : Gathers uri rule kept Declared)
      (h' : Gathers uri rule kept' Declared) {a : α} (ha : kept.get? k = some a) :
      ∃ b, kept'.get? k = some b ∧ (rule b).1.includes (rule a).1 = true ∧ (rule b).2 = (rule a).2 := by
    obtain ⟨d, hd, rfl, hrule⟩ := h.declared ha
    rw [← hrule]
    exact h'.covers hd
  cases ha : kept.get? k with
  | none =>
    cases hb : kept'.get? k with
    | none => rfl
    | some b =>
      obtain ⟨a, ha', -⟩ := hwider h' h hb
      rw [ha] at ha'
      cases ha'
  | some a =>
    obtain ⟨b, hb, hba, heq⟩ := hwider h h' ha
    obtain ⟨a', ha', hab, -⟩ := hwider h' h hb
    cases ha.symm.trans ha'
    rw [hb, Option.map_some, Option.map_some, Prod.ext (UsedOn.includes_antisymm hab hba) heq.symm]

/-- What is kept of the URI of a declaration that is merged: it covers the declaration and what was kept
before, and says what one of the two says. -/
theorem get?_update (hmerges : Merges rule merged) {d : α}
    (hfits : ∀ a, kept.get? (uri d) = some a → Compatible (rule a) (rule d)) :
    ∃ b, (kept.update merged uri d).get? (uri d) = some b ∧
      (rule b).1.includes (rule d).1 = true ∧ (rule b).2 = (rule d).2 ∧
      (rule d = rule b ∨ ∃ a, kept.get? (uri d) = some a ∧ rule a = rule b) ∧
      ∀ a, kept.get? (uri d) = some a → (rule b).1.includes (rule a).1 = true ∧ (rule b).2 = (rule a).2 := by
  rw [SortedMap.get?_update_self]
  cases hget : kept.get? (uri d) with
  | none =>
    rw [hmerges.first d]
    exact ⟨d, rfl, UsedOn.includes_self _, rfl, .inl rfl, nofun⟩
  | some a =>
    obtain ⟨hnests, hsame⟩ := hfits a hget
    obtain ⟨b, hb, hrule⟩ := hmerges.later ⟨hnests, hsame⟩
    rw [hb]
    refine ⟨b, rfl, ?_⟩
    rcases UsedOn.union_of_nests hnests with ⟨hunion, hincludes⟩ | ⟨hunion, hincludes⟩
    · rw [hrule, hunion]
      refine ⟨hincludes, hsame, .inr ⟨a, rfl, rfl⟩, fun o ho => ?_⟩
      cases ho
      exact ⟨UsedOn.includes_self _, rfl⟩
    · rw [hrule, hunion]
      refine ⟨UsedOn.includes_self _, hsame, .inl (Prod.ext rfl hsame.symm), fun o ho => ?_⟩
      cases ho
      exact ⟨hincludes, rfl⟩

/-- A declaration that does not contradict what is kept is taken in. -/
theorem update (hmerges : Merges rule merged) (h : Gathers uri rule kept Declared) {d : α}
    (hfits : ∀ a, kept.get? (uri d) = some a → Compatible (rule a) (rule d)) :
    Gathers uri rule (kept.update merged uri d) fun e => e = d ∨ Declared e := by
  obtain ⟨b, hb, hincludes, hsame, hsays, hwider⟩ := get?_update hmerges hfits
  refine ⟨fun {k a} ha => ?_, fun {e} he => ?_⟩
  · by_cases hk : k = uri d
    · subst hk
      cases hb.symm.trans ha
      rcases hsays with hsays | ⟨a, ha, hsays⟩
      · exact ⟨d, .inl rfl, rfl, hsays⟩
      · obtain ⟨e, he, huri, hrule⟩ := h.declared ha
        exact ⟨e, .inr he, huri, hrule.trans hsays⟩
    · rw [SortedMap.get?_update_of_ne _ _ hk] at ha
      obtain ⟨e, he, huri, hrule⟩ := h.declared ha
      exact ⟨e, .inr he, huri, hrule⟩
  · rcases he with rfl | he
    · exact ⟨b, hb, hincludes, hsame⟩
    · obtain ⟨a, ha, hcovers, heq⟩ := h.covers he
      by_cases hk : uri e = uri d
      · rw [hk] at ha ⊢
        obtain ⟨hincludes, hsame⟩ := hwider a ha
        exact ⟨b, hb, UsedOn.includes_trans hincludes hcovers, hsame.trans heq⟩
      · exact ⟨a, (SortedMap.get?_update_of_ne _ _ hk).trans ha, hcovers, heq⟩

theorem foldl (hmerges : Merges rule merged) (ds : List α) (h : Gathers uri rule kept Declared)
    (hfits : ∀ e d, (Declared e ∨ e ∈ ds) → d ∈ ds → uri e = uri d → Compatible (rule e) (rule d)) :
    Gathers uri rule (ds.foldl (SortedMap.update merged uri) kept) fun e => e ∈ ds ∨ Declared e := by
  induction ds generalizing kept Declared with
  | nil => exact h.congr fun e => by simp
  | cons d ds ih =>
    have hd := h.update hmerges fun a ha => by
      obtain ⟨e, he, huri, hrule⟩ := h.declared ha
      exact hrule ▸ hfits e d (.inl he) List.mem_cons_self huri
    have hds := ih hd fun e f he hf => by
      refine hfits e f ?_ (List.mem_cons_of_mem _ hf)
      rcases he with (rfl | he) | he
      · exact .inr List.mem_cons_self
      · exact .inl he
      · exact .inr (List.mem_cons_of_mem _ he)
    exact hds.congr fun e => by rw [List.mem_cons, or_assoc, or_left_comm]

end Gathers

end Gathers

/-- What a role type rules: on which elements its role is used. -/
def RoleType.rule (r : RoleType) : UsedOn × Unit := (r.usedOn, ())

/-- What an arcrole type rules: on which elements its arcrole is used, and which cycles are allowed. -/
def ArcroleType.rule (a : ArcroleType) : UsedOn × Cycles := (a.usedOn, a.cycles)

theorem RoleType.merges : Merges rule merged where
  first _ := rfl
  later h := ⟨_, if_pos h.1, rfl⟩

theorem ArcroleType.merges : Merges rule merged where
  first _ := rfl
  later h := ⟨_, if_pos ⟨h.2, h.1⟩, rfl⟩

namespace Registry

/-- Whether a registry keeps what was declared of roles and arcroles. -/
structure Keeps (r : Registry) (Role : RoleType → Prop) (Arcrole : ArcroleType → Prop) : Prop where
  roles : Gathers (·.uri) RoleType.rule r.roles Role
  arcroles : Gathers (·.uri) ArcroleType.rule r.arcroles Arcrole

namespace Keeps

variable {r s : Registry} {Role : RoleType → Prop} {Arcrole : ArcroleType → Prop}

theorem empty : Keeps {} (fun _ => False) fun _ => False where
  roles := ⟨nofun, nofun⟩
  arcroles := ⟨nofun, nofun⟩

theorem congr {Role' : RoleType → Prop} {Arcrole' : ArcroleType → Prop} (h : r.Keeps Role Arcrole)
    (hrole : ∀ d, Role' d ↔ Role d) (harcrole : ∀ d, Arcrole' d ↔ Arcrole d) : r.Keeps Role' Arcrole' :=
  ⟨h.roles.congr hrole, h.arcroles.congr harcrole⟩

theorem addAll (h : r.Keeps Role Arcrole) {roles : List RoleType} {arcroles : List ArcroleType}
    (hroles : ∀ e d, (Role e ∨ e ∈ roles) → d ∈ roles → e.uri = d.uri → Compatible e.rule d.rule)
    (harcroles : ∀ e d, (Arcrole e ∨ e ∈ arcroles) → d ∈ arcroles → e.uri = d.uri →
      Compatible e.rule d.rule) :
    (r.addAll roles arcroles).value.Keeps (fun d => d ∈ roles ∨ Role d) fun d => d ∈ arcroles ∨ Arcrole d := by
  rw [value_addAll, foldl_withArcrole, foldl_withRole]
  exact ⟨h.roles.foldl RoleType.merges roles hroles, h.arcroles.foldl ArcroleType.merges arcroles harcroles⟩

variable (hr : r.Keeps Role Arcrole) (hs : s.Keeps Role Arcrole)
include hr hs

theorem usedOn_eq (uri : String) : (r.roles.get? uri).map (·.usedOn) = (s.roles.get? uri).map (·.usedOn) := by
  have hrule := congrArg (Option.map Prod.fst) (hr.roles.map_get?_eq hs.roles uri)
  rwa [Option.map_map, Option.map_map] at hrule

theorem arcroles_eq (uri : String) : (r.arcroles.get? uri).map (fun a => (a.usedOn, a.cycles)) =
    (s.arcroles.get? uri).map fun a => (a.usedOn, a.cycles) :=
  hr.arcroles.map_get?_eq hs.arcroles uri

theorem allowsRole_eq (uri : String) (element : QName) : r.allowsRole uri element = s.allowsRole uri element := by
  have hany (found : Option RoleType) :
      found.any (·.usedOn.contains element) = (found.map (·.usedOn)).any (·.contains element) := by
    cases found <;> rfl
  unfold allowsRole
  rw [hany, hr.usedOn_eq hs uri, ← hany]

theorem allowsArcrole_eq (uri : String) (element : QName) :
    r.allowsArcrole uri element = s.allowsArcrole uri element := by
  have hrule := hr.arcroles_eq hs uri
  unfold allowsArcrole
  cases ha : r.arcroles.get? uri <;> cases hb : s.arcroles.get? uri <;> simp_all

theorem cyclesOf_eq (uri : String) : r.cyclesOf uri = s.cyclesOf uri := by
  have hrule := hr.arcroles_eq hs uri
  unfold cyclesOf
  cases ha : r.arcroles.get? uri <;> cases hb : s.arcroles.get? uri <;> simp_all

end Keeps

end Registry

end TaxonomySet
