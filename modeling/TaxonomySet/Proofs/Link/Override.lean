import TaxonomySet.Link.Override
import TaxonomySet.Proofs.Order

namespace TaxonomySet

open Overridable

variable {α : Type} [Overridable α]

theorem topPriority?_eq_some_iff {group : List α} {p : Int} :
    topPriority? group = some p ↔ (∃ a ∈ group, priority a = p) ∧ ∀ a ∈ group, priority a ≤ p := by
  unfold topPriority?
  rw [List.max?_eq_some_iff, List.mem_map, List.forall_mem_map]

theorem topPriority?_eq_none_iff {group : List α} : topPriority? group = none ↔ group = [] := by
  unfold topPriority?
  rw [List.max?_eq_none_iff, List.map_eq_nil_iff]

theorem topPriority?_of_forall {group : List α} {p : Int}
    (hne : group ≠ []) (h : ∀ a ∈ group, priority a = p) : topPriority? group = some p := by
  obtain ⟨a, ha⟩ := List.exists_mem_of_ne_nil group hne
  exact topPriority?_eq_some_iff.2 ⟨⟨a, ha, h a ha⟩, fun b hb => Int.le_of_eq (h b hb)⟩

theorem topPriority?_perm {xs ys : List α} (h : xs.Perm ys) : topPriority? xs = topPriority? ys := by
  cases hys : topPriority? ys with
  | none => exact topPriority?_eq_none_iff.2 (topPriority?_eq_none_iff.1 hys ▸ h).eq_nil
  | some top =>
    obtain ⟨⟨a, ha, htop⟩, hle⟩ := topPriority?_eq_some_iff.1 hys
    exact topPriority?_eq_some_iff.2 ⟨⟨a, h.mem_iff.2 ha, htop⟩, fun b hb => hle b (h.mem_iff.1 hb)⟩

/-- The members of a group at the highest priority. -/
def strongest (group : List α) : List α :=
  match topPriority? group with
  | none => []
  | some top => group.filter fun a => priority a == top

theorem selectEffective_eq (group : List α) :
    selectEffective group = if (strongest group).any isProhibited then [] else strongest group := by
  unfold selectEffective strongest
  cases topPriority? group <;> rfl

theorem strongest_of_top {group : List α} {top : Int} (h : topPriority? group = some top) :
    strongest group = group.filter fun a => priority a == top := by
  unfold strongest
  rw [h]

theorem strongest_of_forall {group : List α} {p : Int} (h : ∀ a ∈ group, priority a = p) :
    strongest group = group := by
  by_cases hne : group = []
  · subst hne
    rfl
  · rw [strongest_of_top (topPriority?_of_forall hne h), List.filter_eq_self.2 fun a ha => beq_iff_eq.2 (h a ha)]

theorem strongest_ne_nil {group : List α} (h : group ≠ []) : strongest group ≠ [] := by
  cases htop : topPriority? group with
  | none => exact absurd (topPriority?_eq_none_iff.1 htop) h
  | some top =>
    obtain ⟨⟨a, ha, heq⟩, -⟩ := topPriority?_eq_some_iff.1 htop
    rw [strongest_of_top htop]
    exact List.ne_nil_of_mem (List.mem_filter.2 ⟨ha, beq_iff_eq.2 heq⟩)

theorem strongest_perm {xs ys : List α} (h : xs.Perm ys) : (strongest xs).Perm (strongest ys) := by
  unfold strongest
  rw [topPriority?_perm h]
  cases topPriority? ys with
  | none => exact .nil
  | some top => exact h.filter _

theorem mem_strongest {group : List α} {a : α} :
    a ∈ strongest group ↔ a ∈ group ∧ ∀ b ∈ group, priority b ≤ priority a := by
  cases htop : topPriority? group with
  | none =>
    rw [topPriority?_eq_none_iff.1 htop]
    simp [strongest, topPriority?]
  | some top =>
    obtain ⟨⟨best, hbest, hbesttop⟩, hle⟩ := topPriority?_eq_some_iff.1 htop
    rw [strongest_of_top htop, List.mem_filter, beq_iff_eq]
    refine and_congr_right fun ha => ⟨fun heq b hb => heq ▸ hle b hb, fun hall => ?_⟩
    have hbest' := hall best hbest
    have ha' := hle a ha
    omega

theorem filter_strongest {group : List α} {top : Int} (h : ∀ a ∈ group, priority a ≤ top) :
    ((strongest group).filter fun a => priority a == top) = group.filter fun a => priority a == top := by
  cases hbest : topPriority? group with
  | none =>
    rw [topPriority?_eq_none_iff.1 hbest]
    rfl
  | some best =>
    rw [strongest_of_top hbest, List.filter_filter]
    refine List.filter_congr fun a ha => ?_
    have hle := (topPriority?_eq_some_iff.1 hbest).2 a ha
    obtain ⟨⟨b, hb, hbbest⟩, -⟩ := topPriority?_eq_some_iff.1 hbest
    have hbtop := h b hb
    rw [Bool.eq_iff_iff, Bool.and_eq_true, beq_iff_eq, beq_iff_eq]
    omega

/-- Members that others of their list outdo do not count beside further ones either. -/
theorem strongest_append_strongest (xs ys : List α) : strongest (xs ++ strongest ys) = strongest (xs ++ ys) := by
  cases htop : topPriority? (xs ++ ys) with
  | none =>
    obtain ⟨rfl, rfl⟩ := List.append_eq_nil_iff.1 (topPriority?_eq_none_iff.1 htop)
    rfl
  | some top =>
    obtain ⟨⟨best, hbest, hbesttop⟩, hle⟩ := topPriority?_eq_some_iff.1 htop
    have hys : ∀ a ∈ ys, priority a ≤ top := fun a ha => hle a (List.mem_append_right _ ha)
    have htop' : topPriority? (xs ++ strongest ys) = some top := by
      refine topPriority?_eq_some_iff.2 ⟨⟨best, ?_, hbesttop⟩, fun a ha => hle a ?_⟩
      · refine List.mem_append.2 ((List.mem_append.1 hbest).imp_right fun hmem => mem_strongest.2 ⟨hmem, ?_⟩)
        rwa [hbesttop]
      · exact List.mem_append.2 ((List.mem_append.1 ha).imp_right fun hmem => (mem_strongest.1 hmem).1)
    rw [strongest_of_top htop', strongest_of_top htop, List.filter_append, List.filter_append, filter_strongest hys]

/-- The strongest once there is one more: it is too weak, or the only one, or one of several. -/
theorem strongest_concat {group : List α} {top : Int} (h : topPriority? group = some top) (a : α) :
    strongest (group ++ [a]) =
      if priority a < top then strongest group
      else if top < priority a then [a] else strongest group ++ [a] := by
  obtain ⟨⟨b, hb, hbtop⟩, hle⟩ := topPriority?_eq_some_iff.1 h
  rw [strongest_of_top h]
  split
  · rename_i hlt
    have htop : topPriority? (group ++ [a]) = some top := by
      refine topPriority?_eq_some_iff.2 ⟨⟨b, List.mem_append_left _ hb, hbtop⟩, fun c hc => ?_⟩
      rcases List.mem_append.1 hc with hc | hc
      · exact hle c hc
      · rw [List.mem_singleton.1 hc]
        omega
    have hweak : [a].filter (fun c => priority c == top) = [] := by simpa using Int.ne_of_lt hlt
    rw [strongest_of_top htop, List.filter_append, hweak, List.append_nil]
  · rename_i hnlt
    have htop : topPriority? (group ++ [a]) = some (priority a) := by
      refine topPriority?_eq_some_iff.2 ⟨⟨a, List.mem_append_right _ List.mem_cons_self, rfl⟩, fun c hc => ?_⟩
      rcases List.mem_append.1 hc with hc | hc
      · have := hle c hc
        omega
      · exact Int.le_of_eq (congrArg priority (List.mem_singleton.1 hc))
    have hself : [a].filter (fun c => priority c == priority a) = [a] := by simp
    rw [strongest_of_top htop, List.filter_append, hself]
    split
    · rename_i hgt
      have hnone : group.filter (fun c => priority c == priority a) = [] := by
        refine List.filter_eq_nil_iff.2 fun c hc => ?_
        have := hle c hc
        rw [beq_iff_eq]
        omega
      rw [hnone, List.nil_append]
    · rename_i hngt
      rw [show top = priority a by omega]

/-- Among candidates of one priority a single prohibition suppresses all. -/
theorem selectEffective_of_forall {group : List α} {p : Int} (h : ∀ a ∈ group, priority a = p) :
    selectEffective group = if group.any isProhibited then [] else group := by
  rw [selectEffective_eq, strongest_of_forall h]

/-- A member counts if none of the group is stronger and none that is as strong is a prohibition. -/
theorem selectEffective_eq_filter (group : List α) :
    selectEffective group = group.filter fun a => decide (∀ b ∈ group, priority b ≤ priority a ∧
      (priority b = priority a → isProhibited b = false)) := by
  rw [selectEffective_eq]
  cases htop : topPriority? group with
  | none =>
    rw [topPriority?_eq_none_iff.1 htop]
    rfl
  | some top =>
    obtain ⟨⟨best, hbest, hbesttop⟩, hle⟩ := topPriority?_eq_some_iff.1 htop
    rw [strongest_of_top htop]
    split
    · rename_i hany
      obtain ⟨b, hb, hprohibited⟩ := List.any_eq_true.1 hany
      obtain ⟨hbmem, hbtop⟩ := List.mem_filter.1 hb
      rw [beq_iff_eq] at hbtop
      refine (List.filter_eq_nil_iff.2 fun a ha hcounts => ?_).symm
      have hall := of_decide_eq_true hcounts
      have hbest' := (hall best hbest).1
      have ha' := hle a ha
      rw [(hall b hbmem).2 (by omega)] at hprohibited
      cases hprohibited
    · rename_i hany
      refine List.filter_congr fun a ha => ?_
      rw [Bool.eq_iff_iff, beq_iff_eq, decide_eq_true_iff]
      constructor
      · rintro rfl b hb
        refine ⟨hle b hb, fun heq => ?_⟩
        by_contra hprohibited
        exact hany (List.any_eq_true.2 ⟨b, List.mem_filter.2 ⟨hb, beq_iff_eq.2 heq⟩, by simpa using hprohibited⟩)
      · intro hall
        have hbest' := (hall best hbest).1
        have ha' := hle a ha
        omega

theorem selectEffective_strongest (group : List α) : selectEffective (strongest group) = selectEffective group := by
  have hstrongest : strongest (strongest group) = strongest group := strongest_append_strongest [] group
  rw [selectEffective_eq, selectEffective_eq, hstrongest]

/-- Of a part of a group the same members count as of the whole, if any of it counts there. -/
theorem filter_counts_eq {group part : List α} (hsub : part ⊆ group) {a : α} (ha : a ∈ part)
    (hcounts : ∀ b ∈ group, priority b ≤ priority a ∧ (priority b = priority a → isProhibited b = false)) :
    (part.filter fun c => decide (∀ b ∈ group, priority b ≤ priority c ∧
      (priority b = priority c → isProhibited b = false))) = selectEffective part := by
  rw [selectEffective_eq_filter]
  refine List.filter_congr fun c hc => ?_
  rw [decide_eq_decide]
  refine ⟨fun h b hb => h b (hsub hb), fun h => ?_⟩
  have heq : priority c = priority a := Int.le_antisymm (hcounts c (hsub hc)).1 (h a ha).1
  rwa [heq]

/-- The first that counts of two lists together is the first that counts of one of them. -/
theorem head?_selectEffective_append {xs ys : List α} {a : α} (h : (selectEffective (xs ++ ys)).head? = some a) :
    (selectEffective xs).head? = some a ∨ (selectEffective ys).head? = some a := by
  have hcounts := List.mem_of_head? h
  rw [selectEffective_eq_filter, List.mem_filter, decide_eq_true_iff] at hcounts
  rw [selectEffective_eq_filter, List.filter_append, List.head?_append, Option.or_eq_some_iff] at h
  rcases h with h | ⟨-, h⟩
  · have ha := List.mem_of_mem_filter (List.mem_of_head? h)
    rw [filter_counts_eq (List.subset_append_left xs ys) ha hcounts.2] at h
    exact .inl h
  · have ha := List.mem_of_mem_filter (List.mem_of_head? h)
    rw [filter_counts_eq (List.subset_append_right xs ys) ha hcounts.2] at h
    exact .inr h

/-- Repeating a list does not change which member is the first that counts. -/
theorem head?_selectEffective_append_self (xs : List α) :
    (selectEffective (xs ++ xs)).head? = (selectEffective xs).head? := by
  have hmem : ∀ p : α → Prop, (∀ b ∈ xs ++ xs, p b) ↔ ∀ b ∈ xs, p b := by
    intro p
    rw [List.forall_mem_append, and_self]
  rw [selectEffective_eq_filter, selectEffective_eq_filter, List.filter_append, List.head?_append]
  simp only [hmem, Option.or_self]

theorem Alike.selectEffective {κ : Type} [DecidableEq α] [DecidableEq κ] {key : α → κ} {xs ys : List α}
    (h : Alike key xs ys) : Alike key (TaxonomySet.selectEffective xs) (TaxonomySet.selectEffective ys) := by
  have hstrongest : Alike key (strongest xs) (strongest ys) := by
    unfold strongest
    rw [topPriority?_perm h.perm]
    cases topPriority? ys with
    | none => exact fun _ => rfl
    | some top => exact h.filter fun a => priority a == top
  rw [selectEffective_eq, selectEffective_eq, hstrongest.perm.any_eq]
  split
  · exact fun _ => rfl
  · exact hstrongest

theorem selectEffective_map {β : Type} [Overridable β] {f : α → β} (hpriority : ∀ a, priority (f a) = priority a)
    (hprohibited : ∀ a, isProhibited (f a) = isProhibited a) (xs : List α) :
    selectEffective (xs.map f) = (selectEffective xs).map f := by
  have hstrongest : strongest (xs.map f) = (strongest xs).map f := by
    have htop : topPriority? (xs.map f) = topPriority? xs := by
      unfold topPriority?
      rw [List.map_map]
      exact congrArg List.max? (List.map_congr_left fun a _ => hpriority a)
    unfold strongest
    rw [htop]
    cases topPriority? xs with
    | none => rfl
    | some top =>
      change (xs.map f).filter (fun b => priority b == top) = (xs.filter fun a => priority a == top).map f
      rw [List.filter_map]
      exact congrArg (List.map f) (List.filter_congr fun a _ => by simp [hpriority])
  have hany : ((strongest xs).map f).any isProhibited = (strongest xs).any isProhibited := by
    rw [List.any_map]
    exact congrArg (List.any _) (funext hprohibited)
  rw [selectEffective_eq, selectEffective_eq, hstrongest, hany]
  split <;> rfl

end TaxonomySet
