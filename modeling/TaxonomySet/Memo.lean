namespace TaxonomySet

universe u v w

/-- A table of computed values and the counts of look-ups that found one and that did not. A value that is in the
table stays, so whoever stores another one later gets the first. A computation that fails stores nothing. -/
structure Memo (κ : Type u) (α : Type v) where
  entries : List (κ × α) := []
  hits : Nat := 0
  misses : Nat := 0

namespace Memo

variable {κ : Type u} {α : Type v} {ε : Type w} [BEq κ]

/-- The value of a key. -/
def find? (m : Memo κ α) (k : κ) : Option α := m.entries.lookup k

/-- Whether a key has a value. -/
def contains (m : Memo κ α) (k : κ) : Bool := (m.find? k).isSome

/-- The number of values. -/
def size (m : Memo κ α) : Nat := m.entries.length

/-- Looks a key up and counts the look-up. -/
def look (m : Memo κ α) (k : κ) : Option α × Memo κ α :=
  match m.find? k with
  | some a => (some a, { m with hits := m.hits + 1 })
  | none => (none, { m with misses := m.misses + 1 })

/-- Stores a value unless the key has one, and returns the value that is in the table then. -/
def store (m : Memo κ α) (k : κ) (a : α) : α × Memo κ α :=
  match m.find? k with
  | some old => (old, m)
  | none => (a, { m with entries := m.entries ++ [(k, a)] })

/-- The value of a key, computed if it is not in the table. -/
def compute (m : Memo κ α) (k : κ) (f : Unit → Except ε α) : Except ε α × Memo κ α :=
  match m.look k with
  | (some a, m) => (.ok a, m)
  | (none, m) =>
    match f () with
    | .error e => (.error e, m)
    | .ok a => ((m.store k a).map .ok id)

/-- The empty table, with nothing counted. -/
def clear (_ : Memo κ α) : Memo κ α := {}

/-- The table at a glance. -/
def text (m : Memo κ α) : String :=
  "MemoCache \x7b entries: " ++ toString m.size ++ ", hits: " ++ toString m.hits ++ ", misses: " ++
    toString m.misses ++ " \x7d"

end Memo

end TaxonomySet
