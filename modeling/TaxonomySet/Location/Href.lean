import TaxonomySet.Location
import TaxonomySet.Text.Blank

namespace TaxonomySet

/-- A document and the id of an element in it. -/
structure Href where
  document : String
  fragment : Option String
deriving DecidableEq, Repr

namespace Href

/-- The id that a fragment points to. Of the pointer schemes only a bare id and `element(id)` are understood; any
other fragment is taken as an id as it stands. -/
def pointerId (fragment : String) : String :=
  match (Text.dropStart? "element(".toList fragment.toList).bind (Text.dropEnd? [')']) with
  | some id => String.ofList id
  | none => fragment

/-- Resolves a reference that stands in the document at `base`. -/
def parse (base reference : String) : Href :=
  let parts := Location.splitFragment (Text.trim reference)
  ⟨Location.resolve base parts.1, parts.2.map pointerId⟩

/-- The reference as one text. -/
def text (h : Href) : String :=
  match h.fragment with
  | some fragment => h.document ++ "#" ++ fragment
  | none => h.document

end Href

end TaxonomySet
