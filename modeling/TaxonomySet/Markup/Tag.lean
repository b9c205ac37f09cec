import TaxonomySet.Markup.Entity
import TaxonomySet.Text.Blank

namespace TaxonomySet.Markup

open Text

/-- A start tag: the name as written, and the attributes as written with their references
resolved; `none` if they are malformed. -/
structure Tag where
  name : String
  attributes : Option (List (String × String))
deriving DecidableEq, Repr

/-- The characters up to one that satisfies a test, that one, and what follows it. -/
def breakAt? (p : Char → Bool) : List Char → Option (List Char × Char × List Char)
  | [] => none
  | c :: cs =>
    if p c then some ([], c, cs) else (breakAt? p cs).map fun r => (c :: r.1, r.2.1, r.2.2)

theorem length_of_breakAt? {p : Char → Bool} {cs a b : List Char} {c : Char}
    (h : breakAt? p cs = some (a, c, b)) : b.length < cs.length := by
  induction cs generalizing a with
  | nil => simp [breakAt?] at h
  | cons d cs ih =>
    unfold breakAt? at h
    split at h
    · simp_all
    · obtain ⟨r, hr, heq⟩ := Option.map_eq_some_iff.1 h
      cases heq
      have := ih hr
      simp
      omega

/-- Reads the key, the equals sign and the quoted value of one attribute. The first character of the key is taken
whatever it is. The value stands between quotes of either kind, and blanks are allowed around each part. -/
def attribute? : List Char → Option ((List Char × List Char) × List Char)
  | [] => none
  | first :: cs =>
    (breakAt? (fun c => c == '=' || isMarkupBlank c) cs).bind fun key =>
    let afterKey := if key.2.1 == '=' then some key.2.2 else
      match key.2.2.dropWhile isMarkupBlank with
      | '=' :: r => some r
      | _ => none
    afterKey.bind fun r =>
    match r.dropWhile isMarkupBlank with
    | q :: r =>
      if q == '\x22' || q == '\x27' then
        (breakAt? (· == q) r).map fun value => ((first :: key.1, value.1), value.2.2)
      else none
    | [] => none

theorem length_dropWhile_le (p : Char → Bool) (cs : List Char) :
    (cs.dropWhile p).length ≤ cs.length := (List.dropWhile_sublist p).length_le

theorem length_of_attribute? {cs r : List Char} {a : List Char × List Char}
    (h : attribute? cs = some (a, r)) : r.length < cs.length := by
  cases cs with
  | nil => simp [attribute?] at h
  | cons first cs =>
    simp only [attribute?, Option.bind_eq_some_iff] at h
    obtain ⟨⟨k, c, afterC⟩, hk, r₁, hr₁, h⟩ := h
    have h₁ : r₁.length ≤ afterC.length := by
      simp only at hr₁
      split at hr₁
      · cases hr₁; exact Nat.le_refl _
      · split at hr₁
        · rename_i r' heq
          cases hr₁
          have := length_dropWhile_le isMarkupBlank afterC
          rw [heq] at this
          simp at this
          omega
        · simp at hr₁
    have h₀ := length_of_breakAt? hk
    split at h
    · rename_i q r₂ heq
      have h₂ := length_dropWhile_le isMarkupBlank r₁
      rw [heq] at h₂
      split at h
      · obtain ⟨v, hv, hp⟩ := Option.map_eq_some_iff.1 h
        have h₃ := length_of_breakAt? (a := v.1) (c := v.2.1) (b := v.2.2) hv
        simp only [Prod.mk.injEq] at hp
        obtain ⟨_, rfl⟩ := hp
        simp at h₂ ⊢
        omega
      · simp at h
    · simp at h

/-- Reads the attributes of a tag, with their values as written. -/
def rawAttributes? (cs : List Char) : Option (List (List Char × List Char)) :=
  let cs' := cs.dropWhile isMarkupBlank
  if cs'.isEmpty then some []
  else
    match _h : attribute? cs' with
    | none => none
    | some (a, r) => (rawAttributes? r).map (a :: ·)
termination_by cs.length
decreasing_by
  have h₁ := length_of_attribute? _h
  have h₂ : cs'.length ≤ cs.length := length_dropWhile_le isMarkupBlank cs
  omega

/-- The attributes of a tag, if they are well-formed and no key repeats. -/
def attributes? (cs : List Char) : Option (List (String × String)) :=
  (rawAttributes? cs).bind fun raw =>
    if (raw.map (·.1)).Nodup then
      raw.mapM fun a => (unescape? a.2).map fun value => (String.ofList a.1, value)
    else none

/-- The tag with the given content. Its name ends at the first blank. -/
def Tag.ofContent (content : List Char) : Tag :=
  let name := content.takeWhile (!isMarkupBlank ·)
  ⟨String.ofList name, attributes? (content.drop name.length)⟩

end TaxonomySet.Markup
