import TaxonomySet.Link.Basic
import TaxonomySet.Text.Blank
import TaxonomySet.Text.Lowercase

namespace TaxonomySet

/-- What identifies an end of a relationship. Concepts are compared by name and resources by what they say. -/
inductive EndKey where
  | concept (name : QName)
  | resource (element : QName) (role lang : Option String) (text : String)
deriving DecidableEq, Repr

namespace EndKey

/-- The key of a resource. Letters of its language count alike in either case, and blanks at the
ends of its text do not count. -/
def ofResource (r : Resource) : EndKey :=
  .resource r.element r.role (r.lang.map Text.lowercase) (Text.trim r.text)

/-- An optional text for comparison; no text comes before any. -/
def optionTexts : Option String → List String
  | none => ["0"]
  | some s => ["1", s]

/-- The texts by which keys are ordered, one after the other; concepts come before resources. -/
def texts : EndKey → List String
  | concept name => ["0", name.ns, name.localName]
  | resource element role lang text =>
    ["1", element.ns, element.localName] ++ optionTexts role ++ optionTexts lang ++ [text]

theorem texts_inj {a b : EndKey} (h : a.texts = b.texts) : a = b := by
  cases a with
  | concept p =>
    cases b with
    | concept q =>
      cases p
      cases q
      simpa [texts] using h
    | resource => simp [texts] at h
  | resource p r l t =>
    cases b with
    | concept => simp [texts] at h
    | resource q r' l' t' =>
      cases p
      cases q
      cases r <;> cases r' <;> cases l <;> cases l' <;> simp_all [texts, optionTexts]

instance : Ord EndKey := ⟨compareOn texts⟩

instance : Std.TransOrd EndKey := inferInstanceAs (Std.TransCmp (compareOn texts))

instance : Std.LawfulEqOrd EndKey where
  eq_of_compare {a b} h :=
    texts_inj (Std.compare_eq_iff_eq.1 (show compare a.texts b.texts = .eq from h))

end EndKey

/-- What identifies a relationship within its base set: the element, the arcrole and the attributes
of its arc, and its two ends. -/
structure EquivalenceKey where
  element : QName
  arcrole : String
  source : EndKey
  target : EndKey
  attributes : List (String × String)
deriving DecidableEq, Repr

namespace EquivalenceKey

/-- The key of the relationship that an arc makes between two ends. -/
def ofArc (a : Arc) (source target : EndKey) : EquivalenceKey :=
  ⟨a.element, a.arcrole, source, target, a.attributes.entries⟩

/-- The names and values of attributes, one after the other. -/
def attributeTexts (as : List (String × String)) : List String := as.flatMap fun a => [a.1, a.2]

theorem attributeTexts_inj {as bs : List (String × String)}
    (h : attributeTexts as = attributeTexts bs) : as = bs := by
  induction as generalizing bs with
  | nil =>
    cases bs with
    | nil => rfl
    | cons b bs => simp [attributeTexts] at h
  | cons a as ih =>
    cases bs with
    | nil => simp [attributeTexts] at h
    | cons b bs =>
      simp only [attributeTexts, List.flatMap_cons, List.cons_append, List.nil_append,
        List.cons.injEq] at h
      obtain ⟨h₁, h₂, h₃⟩ := h
      rw [ih h₃, Prod.ext h₁ h₂]

/-- Keys are ordered by element, arcrole, ends and attributes, in this sequence. -/
def order : EquivalenceKey → EquivalenceKey → Ordering :=
  compareLex (compareOn element) <| compareLex (compareOn arcrole) <|
    compareLex (compareOn source) <| compareLex (compareOn target) <|
      compareOn fun k => attributeTexts k.attributes

instance : Ord EquivalenceKey := ⟨order⟩

instance : Std.TransCmp order := by
  unfold order
  infer_instance

instance : Std.TransOrd EquivalenceKey := inferInstanceAs (Std.TransCmp order)

instance : Std.LawfulEqOrd EquivalenceKey where
  eq_of_compare {a b} h := by
    have h : (compare a.element b.element).then ((compare a.arcrole b.arcrole).then
      ((compare a.source b.source).then ((compare a.target b.target).then
        (compare (attributeTexts a.attributes) (attributeTexts b.attributes))))) = .eq := h
    simp only [Ordering.then_eq_eq, Std.compare_eq_iff_eq] at h
    obtain ⟨h₁, h₂, h₃, h₄, h₅⟩ := h
    have h₆ := attributeTexts_inj h₅
    cases a
    cases b
    simp_all

end EquivalenceKey

end TaxonomySet
