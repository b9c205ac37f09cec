import TaxonomySet.QName
import TaxonomySet.Vocabulary

namespace TaxonomySet

/-- The kind of an extended link. -/
inductive LinkKind where
  | presentation
  | calculation
  | definition
  | label
  | reference
  | footnote
  | generic
  | custom (element : QName)
deriving DecidableEq, Repr, Inhabited

namespace LinkKind

/-- The standard kinds in their order, each with its element and its word. -/
def standard : List (LinkKind × QName × String) := [
  (presentation, ⟨Vocabulary.link, "presentationLink"⟩, "presentation"),
  (calculation, ⟨Vocabulary.link, "calculationLink"⟩, "calculation"),
  (definition, ⟨Vocabulary.link, "definitionLink"⟩, "definition"),
  (label, ⟨Vocabulary.link, "labelLink"⟩, "label"),
  (reference, ⟨Vocabulary.link, "referenceLink"⟩, "reference"),
  (footnote, ⟨Vocabulary.link, "footnoteLink"⟩, "footnote"),
  (generic, ⟨Vocabulary.genericLink, "link"⟩, "generic")]

/-- The kind of the links of an element. -/
def ofElement (q : QName) : LinkKind :=
  ((standard.find? (·.2.1 == q)).map (·.1)).getD (custom q)

/-- The word for a kind; other elements are named in Clark notation. -/
def text : LinkKind → String
  | custom q => q.clark
  | k => ((standard.find? (·.1 == k)).map (·.2.2)).getD ""

/-- The kind that a word or a name in Clark notation means. -/
def ofText (s : String) : LinkKind :=
  ((standard.find? (·.2.2 == s)).map (·.1)).getD (custom (.ofClark s))

/-- The place of a kind in the order. -/
def rank : LinkKind → Nat
  | presentation => 0
  | calculation => 1
  | definition => 2
  | label => 3
  | reference => 4
  | footnote => 5
  | generic => 6
  | custom _ => 7

/-- The element of a kind that is none of the standard ones. -/
def customName : LinkKind → QName
  | custom q => q
  | _ => ⟨"", ""⟩

/-- The standard kinds come first, then the others by name. -/
instance : Ord LinkKind := ⟨compareLex (compareOn rank) (compareOn customName)⟩

instance : Std.TransOrd LinkKind :=
  inferInstanceAs (Std.TransCmp (compareLex (compareOn rank) (compareOn customName)))

instance : Std.LawfulEqOrd LinkKind where
  eq_of_compare {a b} h := by
    obtain ⟨h₁, h₂⟩ := (Ordering.then_eq_eq.1 h : compare a.rank b.rank = .eq ∧ _)
    have e₁ : a.rank = b.rank := Std.LawfulEqCmp.eq_of_compare h₁
    have e₂ := Std.compare_eq_iff_eq.1 (show compare a.customName b.customName = .eq from h₂)
    cases a <;> cases b <;> simp_all [rank, customName]

end LinkKind

end TaxonomySet
