namespace TaxonomySet

universe u v w

/-- An association list whose keys strictly increase. It has one representation only, so two maps that answer every
look-up alike are equal. -/
structure SortedMap (κ : Type u) (α : Type v) [Ord κ] where
  entries : List (κ × α)
  sorted : entries.Pairwise fun a b => compare a.1 b.1 = .lt

namespace SortedMap

variable {κ : Type u} {α : Type v} {β : Type w} [Ord κ]

instance [DecidableEq κ] [DecidableEq α] : DecidableEq (SortedMap κ α) := fun m n =>
  decidable_of_iff (m.entries = n.entries) (by cases m; cases n; simp)

/-- The map without entries. -/
def empty : SortedMap κ α := ⟨[], .nil⟩

instance : EmptyCollection (SortedMap κ α) := ⟨empty⟩
instance : Inhabited (SortedMap κ α) := ⟨empty⟩

/-- The value that a list of entries holds for a key. -/
def find (k : κ) : List (κ × α) → Option α
  | [] => none
  | (k', a) :: rest => if compare k k' = .eq then some a else find k rest

/-- The value of a key. -/
def get? (m : SortedMap κ α) (k : κ) : Option α := find k m.entries

/-- Whether a key has a value. -/
def contains (m : SortedMap κ α) (k : κ) : Bool := (m.get? k).isSome

/-- The keys in increasing order. -/
def keys (m : SortedMap κ α) : List κ := m.entries.map (·.1)

/-- The values in the order of their keys. -/
def values (m : SortedMap κ α) : List α := m.entries.map (·.2)

/-- The number of keys. -/
def size (m : SortedMap κ α) : Nat := m.entries.length

/-- Whether there is no entry. -/
def isEmpty (m : SortedMap κ α) : Bool := m.entries.isEmpty

/-- Puts `f` of the old value at the place of the key in a sorted list of entries. -/
def place (k : κ) (f : Option α → α) : List (κ × α) → List (κ × α)
  | [] => [(k, f none)]
  | (k', a) :: rest =>
    match compare k k' with
    | .lt => (k, f none) :: (k', a) :: rest
    | .eq => (k', f (some a)) :: rest
    | .gt => (k', a) :: place k f rest

theorem mem_place {k : κ} {f : Option α → α} {es : List (κ × α)} {p : κ × α}
    (h : p ∈ place k f es) : p.1 = k ∨ ∃ q ∈ es, q.1 = p.1 := by
  induction es with
  | nil => simp_all [place]
  | cons e rest ih =>
    obtain ⟨k', a⟩ := e
    unfold place at h
    split at h
    · rcases List.mem_cons.1 h with rfl | h
      · exact .inl rfl
      · exact .inr ⟨p, h, rfl⟩
    · rcases List.mem_cons.1 h with rfl | h
      · exact .inr ⟨(k', a), by simp, rfl⟩
      · exact .inr ⟨p, by simp [h], rfl⟩
    · rcases List.mem_cons.1 h with rfl | h
      · exact .inr ⟨(k', a), by simp, rfl⟩
      · rcases ih h with h | ⟨q, hq, hk⟩
        · exact .inl h
        · exact .inr ⟨q, by simp [hq], hk⟩

theorem sorted_place [Std.TransOrd κ] (k : κ) (f : Option α → α) {es : List (κ × α)}
    (h : es.Pairwise fun a b => compare a.1 b.1 = .lt) :
    (place k f es).Pairwise fun a b => compare a.1 b.1 = .lt := by
  induction es with
  | nil => simp [place]
  | cons e rest ih =>
    obtain ⟨k', a⟩ := e
    obtain ⟨hhead, htail⟩ := List.pairwise_cons.1 h
    unfold place
    split
    · rename_i hlt
      refine List.pairwise_cons.2 ⟨?_, h⟩
      intro p hp
      rcases List.mem_cons.1 hp with rfl | hp
      · exact hlt
      · exact Std.TransCmp.lt_trans hlt (hhead p hp)
    · exact List.pairwise_cons.2 ⟨hhead, htail⟩
    · rename_i hgt
      refine List.pairwise_cons.2 ⟨?_, ih htail⟩
      intro p hp
      rcases mem_place hp with hk | ⟨q, hq, hk⟩
      · rw [hk]; exact Std.OrientedCmp.gt_iff_lt.1 hgt
      · rw [← hk]; exact hhead q hq

/-- Replaces the value of a key by `f` of the value so far. -/
def alter [Std.TransOrd κ] (m : SortedMap κ α) (k : κ) (f : Option α → α) : SortedMap κ α :=
  ⟨place k f m.entries, sorted_place k f m.sorted⟩

/-- Gives a key a value. -/
def insert [Std.TransOrd κ] (m : SortedMap κ α) (k : κ) (a : α) : SortedMap κ α :=
  m.alter k fun _ => a

/-- Appends a value to the list of a key. -/
def push [Std.TransOrd κ] (m : SortedMap κ (List α)) (k : κ) (a : α) : SortedMap κ (List α) :=
  m.alter k fun old => old.getD [] ++ [a]

/-- The map of a list of entries; a later entry wins. -/
def ofList [Std.TransOrd κ] (es : List (κ × α)) : SortedMap κ α :=
  es.foldl (fun m e => m.insert e.1 e.2) empty

/-- The entries that satisfy a test. -/
def filter (p : κ → α → Bool) (m : SortedMap κ α) : SortedMap κ α :=
  ⟨m.entries.filter fun e => p e.1 e.2, m.sorted.filter _⟩

/-- The map with every value replaced. -/
def mapValues (f : α → β) (m : SortedMap κ α) : SortedMap κ β :=
  ⟨m.entries.map fun e => (e.1, f e.2), by simpa [List.pairwise_map] using m.sorted⟩

@[simp] theorem get?_empty (k : κ) : (∅ : SortedMap κ α).get? k = none := rfl

theorem mem_of_find [Std.LawfulEqOrd κ] {k : κ} {a : α} {es : List (κ × α)}
    (h : find k es = some a) : (k, a) ∈ es := by
  induction es with
  | nil => simp [find] at h
  | cons e rest ih =>
    obtain ⟨k', b⟩ := e
    unfold find at h
    split at h
    · rename_i heq
      cases Std.LawfulEqCmp.eq_of_compare heq
      simp_all
    · exact List.mem_cons_of_mem _ (ih h)

theorem mem_entries_of_get? [Std.LawfulEqOrd κ] {m : SortedMap κ α} {k : κ} {a : α}
    (h : m.get? k = some a) : (k, a) ∈ m.entries :=
  mem_of_find h

theorem find_place [Std.TransOrd κ] (k j : κ) (f : Option α → α) (es : List (κ × α))
    (h : es.Pairwise fun a b => compare a.1 b.1 = .lt) :
    find j (place k f es) = if compare j k = .eq then some (f (find k es)) else find j es := by
  induction es with
  | nil => simp [place, find]
  | cons e rest ih =>
    obtain ⟨k', a⟩ := e
    obtain ⟨hhead, htail⟩ := List.pairwise_cons.1 h
    unfold place
    split
    · rename_i hlt
      have hnone : ∀ r : List (κ × α), (∀ p ∈ r, compare k p.1 = .lt) → find k r = none := by
        intro r hr
        induction r with
        | nil => rfl
        | cons p r ih => simp_all [find]
      have hk : find k ((k', a) :: rest) = none := by
        apply hnone
        intro p hp
        rcases List.mem_cons.1 hp with rfl | hp
        · exact hlt
        · exact Std.TransCmp.lt_trans hlt (hhead p hp)
      rw [hk]
      simp [find]
    · rename_i heq
      have hcongr : compare j k' = compare j k := (Std.TransCmp.congr_right heq).symm
      simp only [find, heq, hcongr]
      split <;> simp
    · rename_i hgt
      have hne : compare k k' ≠ .eq := by simp [hgt]
      simp only [find, hne, if_false, ih htail]
      by_cases hj : compare j k = .eq
      · have : compare j k' ≠ .eq := by rw [Std.TransCmp.congr_left hj]; exact hne
        simp [hj, this]
      · simp [hj]

/-- What an update does to the look-ups. -/
theorem get?_alter [Std.TransOrd κ] (m : SortedMap κ α) (k j : κ) (f : Option α → α) :
    (m.alter k f).get? j = if compare j k = .eq then some (f (m.get? k)) else m.get? j :=
  find_place k j f m.entries m.sorted

theorem get?_insert [Std.TransOrd κ] (m : SortedMap κ α) (k j : κ) (a : α) :
    (m.insert k a).get? j = if compare j k = .eq then some a else m.get? j :=
  get?_alter m k j _

end SortedMap

end TaxonomySet
