import TaxonomySet.Vocabulary

namespace TaxonomySet.Markup

/-- The namespace declarations in scope. There is one frame for each enclosing element that declares something, the
innermost first, and in it the declarations as they are written. A declaration without a namespace takes its prefix
back. -/
structure Scope where
  frames : List (List (String × String)) := []
deriving DecidableEq, Repr

namespace Scope

/-- The scope within an element that makes the given declarations. -/
def enter (s : Scope) (declarations : List (String × String)) : Scope :=
  if declarations.isEmpty then s else ⟨declarations :: s.frames⟩

/-- What is declared for a prefix by the nearest element that declares it; of two declarations on
one element the later counts. -/
def declared? (s : Scope) (pre : String) : Option String :=
  s.frames.findSome? fun frame => frame.reverse.lookup pre

/-- The namespace of a prefix; the empty prefix stands for the default namespace. -/
def namespaceOf (s : Scope) (pre : String) : Option String :=
  match s.declared? pre with
  | some uri => if uri.isEmpty then none else some uri
  | none => if pre = "xml" then some Vocabulary.xml else none

/-- The first prefix that the nearest element declares for a namespace. -/
def prefixFor (s : Scope) (uri : String) : Option String :=
  s.frames.findSome? fun frame =>
    (frame.find? fun d => d.2 == uri && !d.1.isEmpty).map (·.1)

end Scope

end TaxonomySet.Markup
