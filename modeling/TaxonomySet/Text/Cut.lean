namespace TaxonomySet.Text

/-- The parts before and after the first occurrence of a character. -/
def cutChars? (sep : Char) : List Char → Option (List Char × List Char)
  | [] => none
  | c :: cs => if c = sep then some ([], cs) else (cutChars? sep cs).map fun p => (c :: p.1, p.2)

/-- The parts of a string before and after the first occurrence of a character. -/
def cut? (sep : Char) (s : String) : Option (String × String) :=
  (cutChars? sep s.toList).map fun p => (String.ofList p.1, String.ofList p.2)

/-- What follows a given beginning. -/
def dropStart? (start : List Char) (cs : List Char) : Option (List Char) :=
  if start.isPrefixOf cs then some (cs.drop start.length) else none

/-- What follows a given beginning of a string. -/
def afterStart? (start : String) (s : String) : Option String :=
  (dropStart? start.toList s.toList).map String.ofList

/-- What precedes a given end. -/
def dropEnd? (stop : List Char) (cs : List Char) : Option (List Char) :=
  (dropStart? stop.reverse cs.reverse).map List.reverse

/-- Whether a string begins with another. -/
def startsWith (start : String) (s : String) : Bool := start.toList.isPrefixOf s.toList

/-- The text up to and including the last occurrence of a character, empty if there is none. -/
def throughLast (sep : Char) (cs : List Char) : List Char :=
  (cs.reverse.dropWhile (· != sep)).reverse

/-- The pieces between the occurrences of a separator. -/
def pieces (sep : Char) : List Char → List (List Char)
  | [] => [[]]
  | c :: cs =>
    match pieces sep cs with
    | [] => [[c]]
    | p :: ps => if c = sep then [] :: p :: ps else (c :: p) :: ps

/-- The parts that `cutChars?` returns make up the text. -/
theorem eq_of_cutChars? {sep : Char} {cs a b : List Char} (h : cutChars? sep cs = some (a, b)) :
    cs = a ++ sep :: b ∧ sep ∉ a := by
  induction cs generalizing a b with
  | nil => simp [cutChars?] at h
  | cons c cs ih =>
    unfold cutChars? at h
    split at h
    · simp_all
    · obtain ⟨p, hp, hab⟩ := Option.map_eq_some_iff.1 h
      cases hab
      obtain ⟨rfl, hn⟩ := ih hp
      simp_all [eq_comm]

theorem cutChars?_eq_none_iff {sep : Char} {cs : List Char} :
    cutChars? sep cs = none ↔ sep ∉ cs := by
  induction cs with
  | nil => simp [cutChars?]
  | cons c cs ih =>
    by_cases h : c = sep
    · simp [cutChars?, h]
    · simp [cutChars?, h, ih, Ne.symm h]

theorem pieces_ne_nil (sep : Char) (cs : List Char) : pieces sep cs ≠ [] := by
  cases cs with
  | nil => simp [pieces]
  | cons c cs => unfold pieces; split <;> (try split) <;> simp

/-- No piece holds the separator. -/
theorem not_mem_of_mem_pieces {sep : Char} {cs p : List Char} (h : p ∈ pieces sep cs) :
    sep ∉ p := by
  induction cs generalizing p with
  | nil => simp_all [pieces]
  | cons c cs ih =>
    unfold pieces at h
    split at h
    · exact absurd ‹_› (pieces_ne_nil sep cs)
    · rename_i q qs heq
      rw [heq] at ih
      split at h
      · rcases List.mem_cons.1 h with rfl | h
        · simp
        · exact ih h
      · rename_i hc
        rcases List.mem_cons.1 h with rfl | h
        · have := ih (List.mem_cons_self (a := q) (l := qs))
          simp [this, Ne.symm hc]
        · exact ih (List.mem_cons_of_mem _ h)

end TaxonomySet.Text
