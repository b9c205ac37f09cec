import TaxonomySet.Sorted.Map

namespace TaxonomySet

universe u

/-- A set with one representation, its strictly increasing list of members. -/
structure SortedSet (κ : Type u) [Ord κ] where
  members : SortedMap κ Unit

namespace SortedSet

variable {κ : Type u} [Ord κ]

instance [DecidableEq κ] : DecidableEq (SortedSet κ) := fun s t =>
  decidable_of_iff (s.members = t.members) (by cases s; cases t; simp)

instance : EmptyCollection (SortedSet κ) := ⟨⟨∅⟩⟩
instance : Inhabited (SortedSet κ) := ⟨⟨∅⟩⟩

/-- The members in increasing order. -/
def toList (s : SortedSet κ) : List κ := s.members.keys

/-- Whether `k` is a member. -/
def contains (s : SortedSet κ) (k : κ) : Bool := s.members.contains k

instance : Membership κ (SortedSet κ) := ⟨fun s k => s.contains k = true⟩

instance (k : κ) (s : SortedSet κ) : Decidable (k ∈ s) :=
  inferInstanceAs (Decidable (s.contains k = true))

/-- The number of members. -/
def size (s : SortedSet κ) : Nat := s.members.size

/-- Whether there is no member. -/
def isEmpty (s : SortedSet κ) : Bool := s.members.isEmpty

/-- Every member of `s` is a member of `t`. -/
def subset (s t : SortedSet κ) : Bool := s.toList.all t.contains

/-- The members that satisfy a test. -/
def filter (p : κ → Bool) (s : SortedSet κ) : SortedSet κ := ⟨s.members.filter fun k _ => p k⟩

variable [Std.TransOrd κ]

/-- Adds a member. -/
def insert (s : SortedSet κ) (k : κ) : SortedSet κ := ⟨s.members.insert k ()⟩

/-- Adds the members of a list. -/
def insertAll (s : SortedSet κ) (ks : List κ) : SortedSet κ := ks.foldl insert s

/-- The set of the members of a list. -/
def ofList (ks : List κ) : SortedSet κ := insertAll ∅ ks

/-- The members of either set. -/
def union (s t : SortedSet κ) : SortedSet κ := s.insertAll t.toList

/-- A set holds what was put in and what it held before. -/
theorem contains_insert (s : SortedSet κ) (k j : κ) :
    (s.insert k).contains j = (compare j k == .eq || s.contains j) := by
  simp only [contains, insert, SortedMap.contains, SortedMap.get?_insert]
  by_cases h : compare j k = .eq <;> simp [h]

theorem contains_insertAll (s : SortedSet κ) (ks : List κ) (j : κ) :
    (s.insertAll ks).contains j = (ks.any (fun k => compare j k == .eq) || s.contains j) := by
  induction ks generalizing s with
  | nil => simp [insertAll]
  | cons k ks ih =>
    have := ih (s.insert k)
    simp only [insertAll, List.foldl_cons] at this ⊢
    rw [this, contains_insert]
    simp only [List.any_cons]
    cases compare j k == .eq <;> cases ks.any (fun k => compare j k == .eq) <;> simp

end SortedSet

end TaxonomySet
