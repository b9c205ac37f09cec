import TaxonomySet.Location

namespace TaxonomySet.Location

open Text

/-- What normalization leaves of the segments, the last one first: ordinary names behind `..`
segments, and no `..` in a path from the root. -/
def Entered (absolute : Bool) (entered : List (List Char)) : Prop :=
  ∃ names ups, entered = names ++ ups ∧ (∀ s ∈ names, s ≠ [] ∧ s ≠ ['.'] ∧ s ≠ ['.', '.']) ∧
    (∀ s ∈ ups, s = ['.', '.']) ∧ (absolute = true → ups = [])

theorem Entered.enter {absolute : Bool} {entered : List (List Char)} (h : Entered absolute entered)
    (segment : List Char) : Entered absolute (enter absolute entered segment) := by
  obtain ⟨names, ups, rfl, hnames, hups, habs⟩ := h
  unfold Location.enter
  split
  · exact ⟨names, ups, rfl, hnames, hups, habs⟩
  · rename_i hblank
    split
    · rename_i hup
      cases names with
      | nil =>
        cases ups with
        | nil =>
          cases absolute
          · exact ⟨[], [segment], by simp, by simp, by simp [hup], by simp⟩
          · exact ⟨[], [], by simp, by simp, by simp, by simp⟩
        | cons u us =>
          have hu : u = ['.', '.'] := hups u (by simp)
          cases absolute
          · refine ⟨[], segment :: u :: us, by simp [hu], by simp, ?_, by simp⟩
            intro s hs
            rcases List.mem_cons.1 hs with rfl | hs
            · exact hup
            · exact hups s hs
          · exact absurd (habs rfl) (by simp)
      | cons n ns =>
        have hn := (hnames n (by simp)).2.2
        exact ⟨ns, ups, by simp [hn], fun s hs => hnames s (by simp [hs]), hups, habs⟩
    · rename_i hup
      refine ⟨segment :: names, ups, rfl, ?_, hups, habs⟩
      intro s hs
      rcases List.mem_cons.1 hs with rfl | hs
      · exact ⟨fun h => hblank (.inl h), fun h => hblank (.inr h), hup⟩
      · exact hnames s hs

theorem entered_foldl {absolute : Bool} {entered : List (List Char)} (h : Entered absolute entered)
    (ps : List (List Char)) : Entered absolute (ps.foldl (enter absolute) entered) := by
  induction ps generalizing entered with
  | nil => exact h
  | cons p ps ih => exact ih (h.enter p)

/-- The segments of a path, the last one first, are such as normalization leaves. -/
theorem entered_segments (path : List Char) : Entered (isAbsolute path) (segments path).reverse := by
  rw [segments, List.reverse_reverse]
  exact entered_foldl ⟨[], [], rfl, by simp, by simp, by simp⟩ _

/-- Entering drops segments but makes none. -/
theorem mem_of_mem_foldl_enter {absolute : Bool} {entered ps : List (List Char)} {s : List Char}
    (h : s ∈ ps.foldl (enter absolute) entered) : s ∈ entered ∨ s ∈ ps := by
  induction ps generalizing entered with
  | nil => exact .inl h
  | cons p ps ih =>
    rcases ih h with h | h
    · have : s ∈ entered ∨ s = p := by
        unfold enter at h
        split at h
        · exact .inl h
        · split at h
          · split at h
            · split at h
              · exact .inl (List.mem_cons_of_mem _ h)
              · split at h
                · exact .inl h
                · rcases List.mem_cons.1 h with h | h
                  · exact .inr h
                  · exact .inl h
            · split at h
              · simp at h
              · exact .inr (by simpa using h)
          · rcases List.mem_cons.1 h with h | h
            · exact .inr h
            · exact .inl h
      rcases this with h | h
      · exact .inl h
      · exact .inr (by simp [h])
    · exact .inr (List.mem_cons_of_mem _ h)

theorem slash_not_mem_segments {path s : List Char} (h : s ∈ segments path) : '/' ∉ s := by
  rw [segments, List.mem_reverse] at h
  rcases mem_of_mem_foldl_enter h with h | h
  · simp at h
  · exact not_mem_of_mem_pieces h

theorem ne_nil_of_mem_segments {path s : List Char} (h : s ∈ segments path) : s ≠ [] := by
  obtain ⟨names, ups, heq, hnames, hups, _⟩ := entered_segments path
  have hs : s ∈ names ++ ups := by rw [← heq]; simpa using h
  rcases List.mem_append.1 hs with hs | hs
  · exact (hnames s hs).1
  · rw [hups s hs]; simp

/-- Entering what normalization leaves gives it back. -/
theorem foldl_enter_eq {absolute : Bool} {entered : List (List Char)} (h : Entered absolute entered) :
    entered.reverse.foldl (enter absolute) [] = entered := by
  obtain ⟨names, ups, rfl, hnames, hups, habs⟩ := h
  have climb : ∀ ups : List (List Char), (∀ s ∈ ups, s = ['.', '.']) → (absolute = true → ups = []) →
      ups.reverse.foldl (enter absolute) [] = ups := by
    intro ups
    induction ups with
    | nil => simp
    | cons u us ih =>
      intro hups habs
      have hu : u = ['.', '.'] := hups u (by simp)
      cases absolute
      · rw [List.reverse_cons, List.foldl_append, ih (fun s hs => hups s (by simp [hs])) (by simp)]
        cases us with
        | nil => simp [enter, hu]
        | cons v vs => simp [enter, hu, hups v (by simp)]
      · exact absurd (habs rfl) (by simp)
  rw [List.reverse_append, List.foldl_append, climb ups hups habs]
  induction names with
  | nil => rfl
  | cons n ns ih =>
    have hn := hnames n (by simp)
    rw [List.reverse_cons, List.foldl_append, ih fun s hs => hnames s (by simp [hs])]
    simp [enter, hn.1, hn.2.1, hn.2.2]

theorem pieces_append (sep : Char) (a b : List Char) :
    pieces sep (a ++ sep :: b) = pieces sep a ++ pieces sep b := by
  induction a with
  | nil =>
    cases hp : pieces sep b with
    | nil => exact absurd hp (pieces_ne_nil sep b)
    | cons p ps => simp [pieces, hp]
  | cons c a ih =>
    rw [List.cons_append, pieces, ih, pieces]
    cases hp : pieces sep a with
    | nil => exact absurd hp (pieces_ne_nil sep a)
    | cons p ps => by_cases hc : c = sep <;> simp [hc]

theorem pieces_eq_singleton {sep : Char} {a : List Char} (h : sep ∉ a) : pieces sep a = [a] := by
  induction a with
  | nil => rfl
  | cons c a ih =>
    have hc : c ≠ sep := fun e => h (by simp [e])
    rw [pieces, ih fun e => h (by simp [e])]
    simp [hc]

theorem pieces_joinSegments {ss : List (List Char)} (h : ∀ s ∈ ss, '/' ∉ s) (hne : ss ≠ []) :
    pieces '/' (joinSegments ss) = ss := by
  induction ss with
  | nil => exact absurd rfl hne
  | cons s ss ih =>
    cases ss with
    | nil => exact pieces_eq_singleton (h s (by simp))
    | cons t ts =>
      rw [joinSegments, pieces_append, pieces_eq_singleton (h s (by simp)),
        ih (fun u hu => h u (by simp [hu])) (by simp), List.singleton_append]

theorem head?_joinSegments {ss : List (List Char)} (h : ∀ s ∈ ss, '/' ∉ s) (hne : ∀ s ∈ ss, s ≠ []) :
    (joinSegments ss).head? ≠ some '/' := by
  cases ss with
  | nil => simp [joinSegments]
  | cons s ss =>
    have hs := h s (by simp)
    cases s with
    | nil => exact absurd rfl (hne [] (by simp))
    | cons c cs =>
      have hc : c ≠ '/' := fun e => hs (by simp [e])
      cases ss <;> simp [joinSegments, hc]

theorem isAbsolute_normalPath (path : List Char) : isAbsolute (normalPath path) = isAbsolute path := by
  cases h : isAbsolute path
  · have := @head?_joinSegments (segments path) (fun s => slash_not_mem_segments)
      (fun s => ne_nil_of_mem_segments)
    rw [normalPath, h]
    simpa [isAbsolute] using this
  · rw [normalPath, h]
    simp [isAbsolute]

theorem segments_normalPath (path : List Char) : segments (normalPath path) = segments path := by
  have hfold := foldl_enter_eq (entered_segments path)
  rw [List.reverse_reverse] at hfold
  have hslash : ∀ s ∈ segments path, '/' ∉ s := fun s => slash_not_mem_segments
  have hskip : ∀ b : Bool, (pieces '/' (joinSegments (segments path))).foldl (enter b) [] =
      (segments path).foldl (enter b) [] := by
    intro b
    cases hs : segments path with
    | nil => simp [joinSegments, pieces, enter]
    | cons s ss => rw [← hs, pieces_joinSegments hslash (by simp [hs])]
  rw [segments, isAbsolute_normalPath]
  unfold normalPath
  split
  · rw [show '/' :: joinSegments (segments path) = [] ++ '/' :: joinSegments (segments path) from rfl,
      pieces_append, pieces, List.singleton_append]
    simp only [List.foldl_cons]
    rw [show enter (isAbsolute path) [] [] = [] by simp [enter], hskip, hfold, List.reverse_reverse]
  · rw [hskip, hfold, List.reverse_reverse]

/-- A normal path is its own normal form. -/
theorem normalPath_normalPath (path : List Char) : normalPath (normalPath path) = normalPath path := by
  rw [normalPath, isAbsolute_normalPath, segments_normalPath, ← normalPath]

theorem cutScheme?_append {cs a r : List Char} (h : cutScheme? cs = some (a, r)) :
    cs = a ++ r ∧ 3 ≤ a.length ∧ ∀ r', cutScheme? (a ++ r') = some (a, r') := by
  induction cs using cutScheme?.induct generalizing a r with
  | case1 => simp [cutScheme?] at h
  | case2 rest =>
    simp only [cutScheme?, Option.some.injEq, Prod.mk.injEq] at h
    obtain ⟨rfl, rfl⟩ := h
    exact ⟨rfl, by simp, fun r' => rfl⟩
  | case3 c rest hne ih =>
    rw [cutScheme?] at h
    · obtain ⟨p, hp, hpair⟩ := Option.map_eq_some_iff.1 h
      cases hpair
      obtain ⟨hrest, hlen, hcut⟩ := ih hp
      refine ⟨by simp [hrest], by simp; omega, ?_⟩
      intro r'
      rw [List.cons_append, cutScheme?, hcut r']
      · rfl
      · intro rest' hc hr
        have : ∃ tail, rest = '/' :: '/' :: tail := by
          match ha : p.1, hlen with
          | x :: y :: z, _ =>
            rw [ha] at hr hrest
            simp only [List.cons_append, List.cons.injEq] at hr
            obtain ⟨rfl, rfl, _⟩ := hr
            exact ⟨z ++ p.2, by simpa using hrest⟩
        obtain ⟨tail, ht⟩ := this
        exact hne tail hc ht
    · exact hne

/-- No slash follows a slash. -/
def SingleSlashes (cs : List Char) : Prop := ∀ a b, cs ≠ a ++ '/' :: '/' :: b

theorem cutScheme?_eq_none {cs : List Char} (h : SingleSlashes cs) : cutScheme? cs = none := by
  cases hc : cutScheme? cs with
  | none => rfl
  | some p =>
    exfalso
    induction cs using cutScheme?.induct generalizing p with
    | case1 => simp [cutScheme?] at hc
    | case2 rest => exact h [':'] rest rfl
    | case3 c rest hne ih =>
      rw [cutScheme?] at hc
      · obtain ⟨q, hq, _⟩ := Option.map_eq_some_iff.1 hc
        exact ih (fun a b e => h (c :: a) b (by simp [e])) q hq
      · exact hne

theorem singleSlashes_append {s cs : List Char} (hs : '/' ∉ s) (hne : s ≠ []) (h : SingleSlashes cs)
    (hhead : cs.head? ≠ some '/') : SingleSlashes (s ++ '/' :: cs) := by
  induction s with
  | nil => exact absurd rfl hne
  | cons c s ih =>
    intro a b e
    cases a with
    | nil => simp at e; exact hs (by simp [e.1])
    | cons x a =>
      simp only [List.cons_append, List.cons.injEq] at e
      obtain ⟨_, e⟩ := e
      cases s with
      | nil =>
        cases a with
        | nil => simp at e; simp [e] at hhead
        | cons y a => simp at e; exact h a b e.2
      | cons d s => exact ih (fun m => hs (by simp [m])) (by simp) a b e

theorem singleSlashes_of_not_mem {s : List Char} (hs : '/' ∉ s) : SingleSlashes s := by
  intro a b e
  exact hs (by simp [e])

theorem singleSlashes_joinSegments {ss : List (List Char)} (h : ∀ s ∈ ss, '/' ∉ s)
    (hne : ∀ s ∈ ss, s ≠ []) : SingleSlashes (joinSegments ss) := by
  induction ss with
  | nil => intro a b e; simp [joinSegments] at e
  | cons s ss ih =>
    cases ss with
    | nil => exact singleSlashes_of_not_mem (h s (by simp))
    | cons t ts =>
      exact singleSlashes_append (h s (by simp)) (hne s (by simp))
        (ih (fun u hu => h u (by simp [hu])) fun u hu => hne u (by simp [hu]))
        (head?_joinSegments (fun u hu => h u (by simp [hu])) fun u hu => hne u (by simp [hu]))

theorem singleSlashes_normalPath (path : List Char) : SingleSlashes (normalPath path) := by
  have hslash : ∀ s ∈ segments path, '/' ∉ s := fun s => slash_not_mem_segments
  have hne : ∀ s ∈ segments path, s ≠ [] := fun s => ne_nil_of_mem_segments
  have hjoin := singleSlashes_joinSegments hslash hne
  unfold normalPath
  split
  · intro a b e
    cases a with
    | nil =>
      have := head?_joinSegments hslash hne
      simp at e
      simp [e] at this
    | cons c a => simp at e; exact hjoin a b e.2
  · exact hjoin

theorem splitAuthority_normal (cs : List Char) :
    splitAuthority ((splitAuthority cs).1 ++ normalPath (splitAuthority cs).2) =
      ((splitAuthority cs).1, normalPath (splitAuthority cs).2) := by
  unfold splitAuthority
  cases hc : cutScheme? cs with
  | none =>
    simp only [List.nil_append]
    rw [cutScheme?_eq_none (singleSlashes_normalPath cs)]
  | some p =>
    obtain ⟨scheme, rest⟩ := p
    obtain ⟨_, _, hcut⟩ := cutScheme?_append hc
    simp only [List.append_assoc]
    rw [hcut]
    have hhost : ∀ c ∈ rest.takeWhile (· != '/'), (c != '/') = true := fun c hc =>
      List.all_eq_true.1 List.all_takeWhile c hc
    have hpath : (normalPath (rest.dropWhile (· != '/'))).takeWhile (· != '/') = [] ∧
        (normalPath (rest.dropWhile (· != '/'))).dropWhile (· != '/') =
          normalPath (rest.dropWhile (· != '/')) := by
      cases hd : rest.dropWhile (· != '/') with
      | nil => simp [normalPath, isAbsolute, segments, pieces, enter, joinSegments]
      | cons c r =>
        have hcs : c = '/' := by
          have := List.head_dropWhile_not (· != '/') (l := rest) (by simp [hd])
          simpa [hd] using this
        subst hcs
        simp [normalPath, isAbsolute]
    simp only [Prod.mk.injEq]
    constructor
    · rw [List.takeWhile_append_of_pos hhost, hpath.1, List.append_nil]
    · rw [List.dropWhile_append_of_pos hhost, hpath.2]

/-- The normal form of a location is its own normal form. -/
theorem normalize_normalize (s : String) : normalize (normalize s) = normalize s := by
  simp only [normalize, String.toList_ofList]
  congr 1
  rw [normalChars, normalChars, splitAuthority_normal]
  simp only [normalPath_normalPath]

/-- A resolved reference is in normal form. -/
theorem normalize_resolve (base reference : String) :
    normalize (resolve base reference) = resolve base reference := by
  unfold resolve
  split
  · exact normalize_normalize _
  · split <;> exact normalize_normalize _

end TaxonomySet.Location
