namespace TaxonomySet

universe u

/-- A list gets shorter when one of its members is taken out. -/
theorem length_erase_lt_of_mem {α : Type u} [DecidableEq α] {a : α} {as : List α} (h : a ∈ as) :
    (as.erase a).length < as.length := by
  have := List.length_pos_of_mem h
  rw [List.length_erase_of_mem h]
  omega

/-- The members of `domain` that are pending or can be reached from those by steps within the
domain. Each of them is visited once. -/
def closure {α : Type u} [DecidableEq α] (next : α → List α) (domain : List α) :
    (pending : List α) → List α
  | [] => []
  | a :: pending =>
    if a ∈ domain then a :: closure next (domain.erase a) (next a ++ pending)
    else closure next domain pending
termination_by pending => (domain.length, pending.length)
decreasing_by
  · rename_i hmem
    exact Prod.Lex.left _ _ (length_erase_lt_of_mem hmem)
  · apply Prod.Lex.right
    simp

end TaxonomySet
