import TaxonomySet.Fault
import TaxonomySet.Location.Normal
import TaxonomySet.Markup.Tree

namespace TaxonomySet

/-- A source of documents. Of the locations in normal form only finitely many can be read, which is why discovery
ends. -/
structure Store where
  read : String → Except Fault ByteArray
  /-- All locations in normal form that can be read. -/
  locations : List String
  mem_locations : ∀ {location bytes}, Location.normalize location = location →
    read location = .ok bytes → location ∈ locations

namespace Store

/-- The document at a location as a tree. -/
def document (s : Store) (location : String) : Except Fault Markup.Node :=
  match s.read location with
  | .error f => .error f
  | .ok bytes =>
    match Markup.parse bytes with
    | .error f => .error (.document location f)
    | .ok root => .ok root

theorem mem_locations_of_document {s : Store} {location : String} {root : Markup.Node}
    (hnormal : Location.normalize location = location) (h : s.document location = .ok root) :
    location ∈ s.locations := by
  unfold document at h
  split at h
  · cases h
  · rename_i hread
    exact s.mem_locations hnormal hread

end Store

end TaxonomySet
