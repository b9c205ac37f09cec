import Mathlib.Logic.Relation
import TaxonomySet.Closure

namespace TaxonomySet

variable {α : Type} [DecidableEq α] {next : α → List α}

/-- Induction for walks that enter no member twice, on the members that are left. -/
@[elab_as_elim]
theorem erase_induction {motive : List α → Prop} (step : ∀ free, (∀ a ∈ free, motive (free.erase a)) → motive free)
    (free : List α) : motive free := by
  induction hlen : free.length using Nat.strongRecOn generalizing free with
  | ind n ih =>
    subst hlen
    exact step free fun a ha => ih _ (length_erase_lt_of_mem ha) _ rfl

/-- A step to a member of the domain. -/
def StepIn (next : α → List α) (domain : List α) (a b : α) : Prop := b ∈ next a ∧ b ∈ domain

theorem StepIn.of_erase {domain : List α} {n a b : α} (h : StepIn next (domain.erase n) a b) :
    StepIn next domain a b := ⟨h.1, List.mem_of_mem_erase h.2⟩

/-- A way that may come to a member can do without it, or starts anew at its last visit there. -/
theorem reach_erase {domain : List α} (n : α) {a b : α} (h : Relation.ReflTransGen (StepIn next domain) a b) :
    Relation.ReflTransGen (StepIn next (domain.erase n)) a b ∨
      Relation.ReflTransGen (StepIn next (domain.erase n)) n b := by
  induction h using Relation.ReflTransGen.head_induction_on with
  | refl => exact .inl .refl
  | @head a c hstep _ ih =>
    rcases ih with hrest | hrest
    · by_cases hc : c = n
      · exact .inr (hc ▸ hrest)
      · exact .inl (.head ⟨hstep.1, (List.mem_erase_of_ne hc).2 hstep.2⟩ hrest)
    · exact .inr hrest

/-- What can be reached is what is a starting point within the domain, or can be reached from one. -/
theorem mem_closure_iff {domain pending : List α} {b : α} :
    b ∈ closure next domain pending ↔
      ∃ a ∈ pending, a ∈ domain ∧ Relation.ReflTransGen (StepIn next domain) a b := by
  fun_induction closure next domain pending with
  | case1 domain => simp
  | case2 domain a pending ha ih =>
    rw [List.mem_cons, ih]
    constructor
    · rintro (rfl | ⟨c, hc, hdomain, hreach⟩)
      · exact ⟨b, List.mem_cons_self, ha, .refl⟩
      · have hwider := Relation.ReflTransGen.mono (fun _ _ => StepIn.of_erase) _ _ hreach
        rcases List.mem_append.1 hc with hc | hc
        · exact ⟨a, List.mem_cons_self, ha, .head ⟨hc, List.mem_of_mem_erase hdomain⟩ hwider⟩
        · exact ⟨c, List.mem_cons_of_mem _ hc, List.mem_of_mem_erase hdomain, hwider⟩
    · rintro ⟨c, hc, hdomain, hreach⟩
      -- a way on from `a` goes over one of the next members, none of which is `a` again
      have hfrom (h : Relation.ReflTransGen (StepIn next (domain.erase a)) a b) :
          b = a ∨ ∃ c ∈ next a ++ pending, c ∈ domain.erase a ∧
            Relation.ReflTransGen (StepIn next (domain.erase a)) c b := by
        rcases h.cases_head with rfl | ⟨d, hstep, hrest⟩
        · exact .inl rfl
        · exact .inr ⟨d, List.mem_append_left _ hstep.1, hstep.2, hrest⟩
      rcases reach_erase a hreach with hreach | hreach
      · by_cases hca : c = a
        · exact hfrom (hca ▸ hreach)
        · have hpending := (List.mem_cons.1 hc).resolve_left hca
          exact .inr ⟨c, List.mem_append_right _ hpending, (List.mem_erase_of_ne hca).2 hdomain, hreach⟩
      · exact hfrom hreach
  | case3 domain a pending ha ih =>
    rw [ih]
    constructor
    · rintro ⟨c, hc, h⟩
      exact ⟨c, List.mem_cons_of_mem _ hc, h⟩
    · rintro ⟨c, hc, hdomain, hreach⟩
      rcases List.mem_cons.1 hc with rfl | hc
      · exact absurd hdomain ha
      · exact ⟨c, hc, hdomain, hreach⟩

/-- Where no step leaves the domain, all that the steps lead to is reached. -/
theorem mem_closure_of_closed {domain pending : List α} (hpending : ∀ a ∈ pending, a ∈ domain)
    (hclosed : ∀ a b, b ∈ next a → b ∈ domain) {b : α} :
    b ∈ closure next domain pending ↔ ∃ a ∈ pending, Relation.ReflTransGen (fun a b => b ∈ next a) a b := by
  have hstep : StepIn next domain = fun a b => b ∈ next a :=
    funext₂ fun a b => propext (and_iff_left_of_imp (hclosed a b))
  rw [mem_closure_iff, hstep]
  exact exists_congr fun a => and_congr_right fun ha => and_iff_right (hpending a ha)

end TaxonomySet
