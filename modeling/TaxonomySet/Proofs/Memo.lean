import TaxonomySet.Memo

namespace TaxonomySet.Memo

variable {κ α : Type} [BEq κ] (m : Memo κ α)

theorem find?_look (k j : κ) : (m.look k).2.find? j = m.find? j := by
  unfold look
  split <;> rfl

theorem look_fst (k : κ) : (m.look k).1 = m.find? k := by
  unfold look
  split <;> simp_all

theorem entries_look (k : κ) : (m.look k).2.entries = m.entries := by
  unfold look
  split <;> rfl

theorem counts_look (k : κ) : (m.look k).2.hits + (m.look k).2.misses = m.hits + m.misses + 1 := by
  unfold look
  split
  · exact Nat.add_right_comm _ _ _
  · exact (Nat.add_assoc _ _ _).symm

theorem store_fst (k : κ) (a : α) : (m.store k a).1 = (m.find? k).getD a := by
  unfold store
  split <;> simp_all

theorem counts_store (k : κ) (a : α) :
    (m.store k a).2.hits + (m.store k a).2.misses = m.hits + m.misses := by
  unfold store
  split <;> rfl

/-- A value is stored under its key if there is none, and no other changes. -/
theorem find?_store [LawfulBEq κ] (k j : κ) (a : α) :
    (m.store k a).2.find? j = (m.find? j).or (if j == k then some a else none) := by
  unfold store
  cases hold : m.find? k with
  | some old =>
    by_cases hj : j = k
    · rw [hj, hold, Option.some_or]
    · rw [if_neg (by simpa using hj), Option.or_none]
  | none =>
    have hsingle : List.lookup j [(k, a)] = if j == k then some a else none := by
      cases hj : j == k <;> simp [List.lookup_cons, hj]
    exact List.lookup_append.trans (congrArg _ hsingle)

end TaxonomySet.Memo
