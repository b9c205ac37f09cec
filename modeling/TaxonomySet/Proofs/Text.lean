import TaxonomySet.Text.Blank
import TaxonomySet.Text.Cut

namespace TaxonomySet.Text

theorem dropWhile_isBlank {pre w : List Char} (hpre : ∀ c ∈ pre, isBlank c = true)
    (hw : ∀ c ∈ w.head?, isBlank c = false) : (pre ++ w).dropWhile isBlank = w := by
  rw [List.dropWhile_append_of_pos hpre]
  cases w with
  | nil => rfl
  | cons c w => rw [List.dropWhile_cons_of_neg (by simp [hw c rfl])]

/-- Blanks around a text that neither begins nor ends with one are dropped. -/
theorem trimChars_isBlank {pre w post : List Char} (hpre : ∀ c ∈ pre, isBlank c = true)
    (hpost : ∀ c ∈ post, isBlank c = true) (hhead : ∀ c ∈ w.head?, isBlank c = false)
    (hlast : ∀ c ∈ w.getLast?, isBlank c = false) (hne : w ≠ []) : trimChars isBlank (pre ++ w ++ post) = w := by
  have hstart : ∀ c ∈ (w ++ post).head?, isBlank c = false := by
    cases w with
    | nil => exact absurd rfl hne
    | cons c w => exact hhead
  have hend : ∀ c ∈ w.reverse.head?, isBlank c = false := by
    rw [List.head?_reverse]
    exact hlast
  unfold trimChars trimEnd
  rw [List.append_assoc, dropWhile_isBlank hpre hstart, List.reverse_append,
    dropWhile_isBlank (by simpa using hpost) hend, List.reverse_reverse]

/-- What is dropped at the ends of a text is of the class. -/
theorem exists_append_trimChars (p : Char → Bool) (cs : List Char) :
    ∃ pre post, cs = pre ++ trimChars p cs ++ post ∧ (∀ c ∈ pre, p c = true) ∧ ∀ c ∈ post, p c = true := by
  have htake (ds : List Char) : ∀ c ∈ ds.takeWhile p, p c = true := fun c hc =>
    List.all_eq_true.1 List.all_takeWhile c hc
  refine ⟨cs.takeWhile p, ((cs.dropWhile p).reverse.takeWhile p).reverse, ?_, htake cs, fun c hc =>
    htake _ c (List.mem_reverse.1 hc)⟩
  unfold trimChars trimEnd
  rw [List.append_assoc, ← List.reverse_append, List.takeWhile_append_dropWhile, List.reverse_reverse,
    List.takeWhile_append_dropWhile]

theorem cutChars?_append {sep : Char} {a : List Char} (h : sep ∉ a) (b : List Char) :
    cutChars? sep (a ++ sep :: b) = some (a, b) := by
  induction a with
  | nil => exact if_pos rfl
  | cons c a ih =>
    obtain ⟨hc, ha⟩ := not_or.1 (mt List.mem_cons.2 h)
    rw [List.cons_append, cutChars?, if_neg (Ne.symm hc), ih ha]
    rfl

theorem cut?_eq_some_iff {sep : Char} {s a b : String} :
    cut? sep s = some (a, b) ↔ s = a ++ String.singleton sep ++ b ∧ sep ∉ a.toList := by
  have hchars : s = a ++ String.singleton sep ++ b ↔ s.toList = a.toList ++ sep :: b.toList := by
    rw [← String.toList_inj]
    simp
  rw [hchars]
  unfold cut?
  constructor
  · intro h
    obtain ⟨⟨first, rest⟩, hcut, hpair⟩ := Option.map_eq_some_iff.1 h
    cases hpair
    simpa using eq_of_cutChars? hcut
  · rintro ⟨hs, ha⟩
    rw [hs, cutChars?_append ha, Option.map_some, String.ofList_toList, String.ofList_toList]

theorem cut?_eq_none_iff {sep : Char} {s : String} : cut? sep s = none ↔ sep ∉ s.toList :=
  Option.map_eq_none_iff.trans cutChars?_eq_none_iff

theorem startsWith_iff {start s : String} : startsWith start s = true ↔ ∃ rest, s = start ++ rest := by
  unfold startsWith
  rw [List.isPrefixOf_iff_prefix]
  constructor
  · rintro ⟨rest, h⟩
    exact ⟨String.ofList rest, by rw [← String.toList_inj, String.toList_append, String.toList_ofList, h]⟩
  · rintro ⟨rest, rfl⟩
    exact ⟨rest.toList, String.toList_append.symm⟩

theorem afterStart?_eq_some_iff {start s rest : String} : afterStart? start s = some rest ↔ s = start ++ rest := by
  unfold afterStart? dropStart?
  constructor
  · intro h
    split at h
    · rename_i hstart
      obtain ⟨rest', rfl⟩ := startsWith_iff.1 hstart
      rw [String.toList_append, List.drop_left, Option.map_some, String.ofList_toList, Option.some_inj] at h
      rw [h]
    · cases h
  · rintro rfl
    have hstart : start.toList.isPrefixOf (start ++ rest).toList = true := startsWith_iff.2 ⟨rest, rfl⟩
    rw [if_pos hstart, String.toList_append, List.drop_left, Option.map_some, String.ofList_toList]

end TaxonomySet.Text
