import TaxonomySet.Proofs.Outcome
import TaxonomySet.Proofs.Role.Declaring

namespace TaxonomySet

/-- Whether a rule holds for all elements that another one holds for, and is the same in all else. -/
def Covers (u v : UsedOn × Option Cycles) : Prop := u.1.includes v.1 = true ∧ u.2 = v.2

theorem Covers.antisymm {u v : UsedOn × Option Cycles} (huv : Covers u v) (hvu : Covers v u) : u = v :=
  Prod.ext (UsedOn.includes_antisymm huv.1 hvu.1) huv.2

theorem Covers.compatible {u v : UsedOn × Option Cycles} (h : Covers u v) : Compatible v u :=
  ⟨by simp [UsedOn.nests, h.1], h.2.symm⟩

namespace Registry

variable {k : Subject} {ds : List Declaration}

theorem Accepted.mem {d : Declaration} (h : Accepted ds d) : d ∈ ds := by
  obtain ⟨before, rest, -, rfl, -⟩ := h
  exact List.mem_append_right _ List.mem_cons_self

/-- What is kept of the subject of an accepted declaration covers the declaration. -/
theorem exists_rule?_of_accepted {d : Declaration} (h : Accepted ds d) :
    ∃ u, (after ds).rule? d.subject = some u ∧ Covers u d.rule := by
  cases d with
  | role d =>
    obtain ⟨a, ha, hincludes, -⟩ := (keeps_after ds).roles.covers h
    exact ⟨(a.usedOn, none), by simp [rule?, Declaration.subject, ha], hincludes, rfl⟩
  | arcrole d =>
    obtain ⟨a, ha, hincludes, hcycles⟩ := (keeps_after ds).arcroles.covers h
    exact ⟨(a.usedOn, some a.cycles), by simp [rule?, Declaration.subject, ha], hincludes, congrArg some hcycles⟩

/-- If no declaration is rejected, the registry is what is there after all of them, and each was accepted. -/
theorem accepted_of_foldlM {r : Registry} (h : ds.foldlM declare {} = .ok r) :
    after ds = r ∧ ∀ d ∈ ds, Accepted ds d := by
  induction ds using List.reverseRecOn generalizing r with
  | nil => exact ⟨Except.ok.inj h, nofun⟩
  | append_singleton ds d ih =>
    rw [List.foldlM_append] at h
    obtain ⟨s, hs, hd⟩ := Outcome.bind_eq_ok.1 h
    rw [List.foldlM_cons] at hd
    obtain ⟨r', hd, hr'⟩ := Outcome.bind_eq_ok.1 hd
    cases hr'
    obtain ⟨rfl, haccepted⟩ := ih hs
    refine ⟨(after_concat ds d).trans (declared_of_ok hd), fun e he => accepted_concat.2 ?_⟩
    rcases List.mem_append.1 he with he | he
    · exact .inl (haccepted e he)
    · exact .inr ⟨List.mem_singleton.1 he, r, hd⟩

/-- A declaration that covers all others of its subject settles what is kept, wherever it comes: what is kept before
it says what some other one declares, so it is accepted; what is kept in the end covers it and is covered by it. -/
theorem rule?_after_of_covers {w : Declaration} (hw : w ∈ ds) (hk : ∀ d ∈ ds, d.subject = k)
    (hcovers : ∀ d ∈ ds, Covers w.rule d.rule) : (after ds).rule? k = some w.rule := by
  have hcovered {part : List Declaration} (hpart : part ⊆ ds) {u : UsedOn × Option Cycles}
      (hu : (after part).rule? k = some u) : Covers w.rule u := by
    obtain ⟨e, he, -, rfl⟩ := exists_accepted_of_rule? hu
    exact hcovers e (hpart he.mem)
  have haccepted : Accepted ds w := by
    obtain ⟨before, rest, rfl⟩ := List.append_of_mem hw
    obtain ⟨s, hs⟩ := exists_declare_iff.2 fun u hu =>
      (hcovered (List.subset_append_left _ _) (hk w hw ▸ hu)).compatible
    exact ⟨before, rest, s, rfl, hs⟩
  obtain ⟨u, hu, hwide⟩ := exists_rule?_of_accepted haccepted
  rw [hk w hw] at hu
  rw [hu, (hcovered (List.Subset.refl ds) hu).antisymm hwide]

/-- If each of some declarations of one subject was accepted, one of them covers all. -/
theorem exists_covers_of_accepted (hne : ds ≠ []) (hk : ∀ d ∈ ds, d.subject = k) (h : ∀ d ∈ ds, Accepted ds d) :
    ∃ w ∈ ds, ∀ d ∈ ds, Covers w.rule d.rule := by
  obtain ⟨d, hd⟩ := List.exists_mem_of_ne_nil ds hne
  obtain ⟨u, hu, -⟩ := exists_rule?_of_accepted (h d hd)
  rw [hk d hd] at hu
  obtain ⟨w, hw, -, rfl⟩ := exists_accepted_of_rule? hu
  refine ⟨w, hw.mem, fun e he => ?_⟩
  obtain ⟨v, hv, hcovers⟩ := exists_rule?_of_accepted (h e he)
  rw [hk e he, hu] at hv
  exact Option.some_inj.1 hv ▸ hcovers

end Registry

namespace Declaration

/-- A declaration of a subject for a set of elements. -/
def plain (k : Subject) (usedOn : UsedOn) : Declaration :=
  match k with
  | .role uri => .role { uri, usedOn, document := "schema.xsd" }
  | .arcrole uri => .arcrole { uri, usedOn, cycles := .none, document := "schema.xsd" }

@[simp] theorem subject_plain (k : Subject) (u : UsedOn) : (plain k u).subject = k := by
  cases k <;> rfl

theorem rule_plain (k : Subject) (u : UsedOn) : (plain k u).rule = (u, (plain k ∅).rule.2) := by
  cases k <;> rfl

theorem compatible_plain_iff {k : Subject} {u v : UsedOn} :
    Compatible (plain k u).rule (plain k v).rule ↔ u.nests v = true := by
  rw [rule_plain k u, rule_plain k v]
  exact and_iff_left rfl

end Declaration

namespace Registry

variable {r : Registry} {u v : UsedOn}

theorem exists_declare_plain_empty (k : Subject) (u : UsedOn) : ∃ s, ({} : Registry).declare (.plain k u) = .ok s ∧
    s.rule? k = some (Declaration.plain k u).rule := by
  have hnone : ({} : Registry).rule? k = none := by cases k <;> rfl
  obtain ⟨s, hs⟩ := exists_declare_iff (d := .plain k u).2 fun w hw => by
    rw [Declaration.subject_plain, hnone] at hw
    cases hw
  have hrule := rule?_of_declare hs
  rw [Declaration.subject_plain, hnone] at hrule
  exact ⟨s, hs, hrule⟩

/-- Of plain declarations exactly those are accepted whose elements nest with the ones that are kept. -/
theorem exists_declare_plain_iff (hr : r.rule? k = some (Declaration.plain k u).rule) :
    (∃ s, r.declare (.plain k v) = .ok s) ↔ u.nests v = true := by
  rw [exists_declare_iff, Declaration.subject_plain, hr, ← Declaration.compatible_plain_iff (k := k)]
  exact ⟨fun h => h _ rfl, fun h w hw => Option.some_inj.1 hw ▸ h⟩

theorem rule?_of_declare_plain {s : Registry} (hr : r.rule? k = some (Declaration.plain k u).rule)
    (hs : r.declare (.plain k v) = .ok s) : s.rule? k = some (Declaration.plain k (u.union v)).rule := by
  have hrule := rule?_of_declare hs
  rw [Declaration.subject_plain, hr] at hrule
  rw [hrule, Declaration.rule_plain k (u.union v), Declaration.rule_plain k u, Declaration.rule_plain k v]
  rfl

/-- The set of one standard element. -/
def presentationOnly : UsedOn := ⟨.single 0, ∅⟩

/-- The set of another standard element. -/
def definitionOnly : UsedOn := ⟨.single 2, ∅⟩

/-- Two sets that do not nest are both taken in if the union of the two comes between them, but not if it comes
last. -/
theorem exists_rejected_after_perm (k : Subject) : ∃ order other : List Declaration, (∀ d ∈ order, d.subject = k) ∧
    other.Perm order ∧ (∃ r, order.foldlM declare {} = .ok r) ∧ ∃ c, other.foldlM declare {} = .error c := by
  let both := presentationOnly.union definitionOnly
  obtain ⟨r, hr, hrule⟩ := exists_declare_plain_empty k presentationOnly
  obtain ⟨s, hs⟩ := (exists_declare_plain_iff (v := both) hrule).2 (by decide)
  have hrule' := rule?_of_declare_plain hrule hs
  obtain ⟨t, ht⟩ := (exists_declare_plain_iff (v := definitionOnly) hrule').2 (by decide)
  have hrejected : ¬ ∃ s, r.declare (.plain k definitionOnly) = .ok s := by
    rw [exists_declare_plain_iff hrule]
    decide
  refine ⟨[.plain k presentationOnly, .plain k both, .plain k definitionOnly],
    [.plain k presentationOnly, .plain k definitionOnly, .plain k both], by simp, .cons _ (.swap _ _ _), ⟨t, ?_⟩, ?_⟩
  · rw [List.foldlM_cons, hr]
    change ([.plain k both, .plain k definitionOnly].foldlM declare r) = _
    rw [List.foldlM_cons, hs]
    change ([.plain k definitionOnly].foldlM declare s) = _
    rw [List.foldlM_cons, ht]
    rfl
  · cases hc : r.declare (.plain k definitionOnly) with
    | ok s => exact absurd ⟨s, hc⟩ hrejected
    | error c =>
      refine ⟨c, ?_⟩
      rw [List.foldlM_cons, hr]
      change ([.plain k definitionOnly, .plain k both].foldlM declare r) = _
      rw [List.foldlM_cons, hc]
      rfl

/-- If some order of declarations of one role or arcrole is accepted throughout, what is kept after any other order,
with rejections or without, is what is kept after that one: what one of the declarations says that covers all of
them. That one order is accepted does not mean that all are. -/
theorem rule?_after_perm :
    (∀ {k : Subject} {order other : List Declaration} {r : Registry}, (∀ d ∈ order, d.subject = k) →
      order.foldlM declare {} = .ok r → other.Perm order → (after other).rule? k = r.rule? k ∧
        (order ≠ [] → ∃ w ∈ order, (after other).rule? k = some w.rule ∧ ∀ d ∈ order, Covers w.rule d.rule)) ∧
    ∀ k, ∃ order other : List Declaration, (∀ d ∈ order, d.subject = k) ∧ other.Perm order ∧
      (∃ r, order.foldlM declare {} = .ok r) ∧ ∃ c, other.foldlM declare {} = .error c := by
  refine ⟨fun {k order other r} hk horder hperm => ?_, exists_rejected_after_perm⟩
  obtain ⟨rfl, haccepted⟩ := accepted_of_foldlM horder
  by_cases hne : order = []
  · subst hne
    rw [hperm.eq_nil]
    exact ⟨rfl, fun h => absurd rfl h⟩
  · obtain ⟨w, hw, hcovers⟩ := exists_covers_of_accepted hne hk haccepted
    have hother : (after other).rule? k = some w.rule := rule?_after_of_covers (hperm.mem_iff.2 hw)
      (fun d hd => hk d (hperm.mem_iff.1 hd)) fun d hd => hcovers d (hperm.mem_iff.1 hd)
    exact ⟨hother.trans (rule?_after_of_covers hw hk hcovers).symm, fun _ => ⟨w, hw, hother, hcovers⟩⟩

end Registry

end TaxonomySet
