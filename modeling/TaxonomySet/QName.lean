import TaxonomySet.Text.Cut

namespace TaxonomySet

/-- A name within a namespace; the empty namespace stands for none. -/
structure QName where
  ns : String
  localName : String
deriving DecidableEq, Inhabited, Repr

namespace QName

instance : Ord QName := ⟨compareLex (compareOn ns) (compareOn localName)⟩

instance : Std.TransOrd QName :=
  inferInstanceAs (Std.TransCmp (compareLex (compareOn ns) (compareOn localName)))

instance : Std.LawfulEqOrd QName where
  eq_of_compare {p q} h := by
    obtain ⟨h₁, h₂⟩ := (Ordering.then_eq_eq.1 h : compare p.ns q.ns = .eq ∧ _)
    have e₁ := Std.LawfulEqCmp.eq_of_compare h₁
    have e₂ := Std.compare_eq_iff_eq.1 (show compare p.localName q.localName = .eq from h₂)
    cases p
    cases q
    simp_all

/-- Clark notation: the namespace in braces before the local name, which stands alone when there is
no namespace. -/
def clark (q : QName) : String :=
  if q.ns.isEmpty then q.localName else "\x7b" ++ q.ns ++ "\x7d" ++ q.localName

/-- Reads Clark notation. A text without a closed brace at its beginning is a local name. -/
def ofClark (s : String) : QName :=
  match (Text.afterStart? "\x7b" s).bind (Text.cut? '}') with
  | some (ns, localName) => ⟨ns, localName⟩
  | none => ⟨"", s⟩

end QName

end TaxonomySet
