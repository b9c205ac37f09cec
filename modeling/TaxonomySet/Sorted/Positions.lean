import TaxonomySet.Sorted.Map

namespace TaxonomySet

universe u v

/-- For each key the positions of the elements that have it. They are in increasing order, so a key finds its elements
in the order of the array. -/
abbrev Positions (κ : Type u) [Ord κ] := SortedMap κ (List Nat)

namespace Positions

variable {κ : Type u} {α : Type v} [Ord κ]

/-- Enters the elements of a list, the first of them at position `start`. -/
def addFrom [Std.TransOrd κ] (key : α → Option κ) (start : Nat) (index : Positions κ) :
    List α → Positions κ
  | [] => index
  | x :: xs =>
    addFrom key (start + 1) (match key x with | some k => index.push k start | none => index) xs

/-- The index of an array; an element without a key is left out. -/
def ofArray [Std.TransOrd κ] (key : α → Option κ) (xs : Array α) : Positions κ :=
  addFrom key 0 ∅ xs.toList

/-- The elements at the positions of a key. -/
def select (index : Positions κ) (xs : Array α) (k : κ) : List α :=
  ((index.get? k).getD []).filterMap (xs[·]?)

end Positions

end TaxonomySet
