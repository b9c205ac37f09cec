import TaxonomySet.Location.Normal
import Mathlib.Data.List.Infix

namespace TaxonomySet.Location

/-- What stands between a scheme and an authority. -/
def separator : List Char := [':', '/', '/']

/-- The parts of a location: the scheme and the authority, and the path. The scheme ends before the first
separator, and the authority with the first slash after that. -/
inductive Parts : List Char → List Char → List Char → Prop
  | plain {cs : List Char} (h : ¬ separator <:+: cs) : Parts cs [] cs
  | addressed {scheme host path : List Char} (hscheme : ¬ separator <:+: scheme) (hhost : '/' ∉ host)
    (hpath : path = [] ∨ isAbsolute path = true) :
    Parts (scheme ++ separator ++ host ++ path) (scheme ++ separator ++ host) path

/-- Whether a path is canonical: it has one slash between each two segments, none of which is empty or `.`, and `..`
at its start only, but not if it begins at the root. -/
def IsCanonical (path : List Char) : Prop :=
  ∃ (climbs : Nat) (names : List (List Char)),
    path = (if isAbsolute path then ['/'] else []) ++ joinSegments (List.replicate climbs ['.', '.'] ++ names) ∧
    (∀ s ∈ names, '/' ∉ s ∧ s ≠ [] ∧ s ≠ ['.'] ∧ s ≠ ['.', '.']) ∧ (isAbsolute path = true → climbs = 0)

theorem cutScheme?_cons {c : Char} {cs : List Char} (h : ∀ rest, c = ':' → cs ≠ '/' :: '/' :: rest) :
    cutScheme? (c :: cs) = (cutScheme? cs).map fun p => (c :: p.1, p.2) := by
  rw [cutScheme?]
  exact h

theorem not_infix_of_cutScheme? {cs : List Char} (h : cutScheme? cs = none) : ¬ separator <:+: cs := by
  induction cs using cutScheme?.induct with
  | case1 => simp [separator]
  | case2 rest => cases h
  | case3 c rest hne ih =>
    rw [cutScheme?_cons hne, Option.map_eq_none_iff] at h
    rw [List.infix_cons_iff]
    rintro (⟨after, hafter⟩ | hinfix)
    · cases hafter
      exact hne after rfl rfl
    · exact ih h hinfix

/-- A location is cut at its first separator. -/
theorem exists_scheme_of_cutScheme? {cs front rest : List Char} (h : cutScheme? cs = some (front, rest)) :
    ∃ scheme, front = scheme ++ separator ∧ cs = front ++ rest ∧ ¬ separator <:+: scheme := by
  induction cs using cutScheme?.induct generalizing front with
  | case1 => cases h
  | case2 rest' =>
    cases h
    exact ⟨[], rfl, rfl, by simp [separator]⟩
  | case3 c cs hne ih =>
    rw [cutScheme?_cons hne] at h
    obtain ⟨⟨front', rest'⟩, hcut, hpair⟩ := Option.map_eq_some_iff.1 h
    cases hpair
    obtain ⟨scheme, rfl, hcs, hscheme⟩ := ih hcut
    refine ⟨c :: scheme, rfl, by rw [hcs]; rfl, ?_⟩
    rw [List.infix_cons_iff]
    rintro (⟨after, hafter⟩ | hinfix)
    · -- a separator that begins here would be the first one
      cases hafter
      exact hne (after ++ separator ++ rest') rfl (by rw [hcs]; rfl)
    · exact hscheme hinfix

theorem parts_splitAuthority (cs : List Char) : Parts cs (splitAuthority cs).1 (splitAuthority cs).2 := by
  unfold splitAuthority
  cases hcut : cutScheme? cs with
  | none => exact .plain (not_infix_of_cutScheme? hcut)
  | some p =>
    obtain ⟨front, rest⟩ := p
    obtain ⟨scheme, rfl, hcs, hscheme⟩ := exists_scheme_of_cutScheme? hcut
    have hhost : '/' ∉ rest.takeWhile (· != '/') := fun hmem => by
      simpa using List.all_eq_true.1 (List.all_takeWhile (p := (· != '/'))) _ hmem
    have hpath : rest.dropWhile (· != '/') = [] ∨ isAbsolute (rest.dropWhile (· != '/')) = true := by
      cases hdrop : rest.dropWhile (· != '/') with
      | nil => exact .inl rfl
      | cons c path =>
        have hc := List.head_dropWhile_not (· != '/') (l := rest) (by simp [hdrop])
        exact .inr (by simpa [isAbsolute, hdrop] using hc)
    have hparts := Parts.addressed hscheme hhost hpath
    rwa [List.append_assoc, List.takeWhile_append_dropWhile, ← hcs] at hparts

/-- Where the authority ends does not change when the path is put into normal form. -/
theorem Parts.normal {cs authority path : List Char} (h : Parts cs authority path) :
    Parts (authority ++ normalPath path) authority (normalPath path) := by
  cases h with
  | plain =>
    refine .plain ?_
    rintro ⟨before, after, heq⟩
    refine singleSlashes_normalPath cs (before ++ [':']) after ?_
    rw [← List.nil_append (normalPath cs), ← heq]
    simp [separator]
  | addressed hscheme hhost hpath =>
    refine .addressed hscheme hhost ?_
    rw [isAbsolute_normalPath]
    rcases hpath with rfl | hpath
    · exact .inl rfl
    · exact .inr hpath

theorem isCanonical_normalPath (path : List Char) : IsCanonical (normalPath path) := by
  obtain ⟨names, ups, heq, hnames, hups, habsolute⟩ := entered_segments path
  have hsegments : segments path = ups.reverse ++ names.reverse := by
    rw [← List.reverse_append, ← heq, List.reverse_reverse]
  have hclimbs : ups.reverse = List.replicate ups.length ['.', '.'] :=
    (congrArg List.reverse (List.eq_replicate_of_mem hups)).trans List.reverse_replicate
  refine ⟨ups.length, names.reverse, ?_, fun s hs => ?_, fun hroot => ?_⟩
  · rw [← hclimbs, ← hsegments, isAbsolute_normalPath, normalPath]
    split <;> rfl
  · have hmem : s ∈ segments path := hsegments ▸ List.mem_append_right _ hs
    exact ⟨slash_not_mem_segments hmem, hnames s (List.mem_reverse.1 hs)⟩
  · rw [isAbsolute_normalPath] at hroot
    rw [habsolute hroot]
    rfl

/-- A location in normal form has the scheme and the authority that it had, and a canonical path, which begins at
the root if it did before. -/
theorem exists_parts_normalize (s : String) : ∃ authority path path',
    Parts s.toList authority path ∧ Parts (normalize s).toList authority path' ∧ IsCanonical path' ∧
      isAbsolute path' = isAbsolute path := by
  have hparts := parts_splitAuthority s.toList
  refine ⟨_, _, _, hparts, ?_, isCanonical_normalPath _, isAbsolute_normalPath _⟩
  rw [normalize, String.toList_ofList]
  exact hparts.normal

end TaxonomySet.Location
