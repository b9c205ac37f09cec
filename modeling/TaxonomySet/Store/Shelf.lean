import TaxonomySet.Sorted.Map
import TaxonomySet.Store

namespace TaxonomySet

/-- Documents in memory. They are kept under their normal locations, with a list of what was asked for. -/
structure Shelf where
  documents : SortedMap String ByteArray := ∅
  asked : List String := []

namespace Shelf

instance : Inhabited Shelf := ⟨{}⟩

/-- Puts a document in place of any at the same location. -/
def put (s : Shelf) (location : String) (content : ByteArray) : Shelf :=
  { s with documents := s.documents.insert (Location.normalize location) content }

/-- The content at a location. -/
def read (s : Shelf) (location : String) : Except Fault ByteArray :=
  match s.documents.get? (Location.normalize location) with
  | some content => .ok content
  | none => .error (.notFound location)

/-- The content at a location, with a note that it was asked for. -/
def fetch (s : Shelf) (location : String) : Except Fault ByteArray × Shelf :=
  (s.read location, { s with asked := s.asked ++ [location] })

/-- The shelf as a source of documents. -/
def store (s : Shelf) : Store where
  read := s.read
  locations := s.documents.keys
  mem_locations := by
    intro location bytes hnormal h
    unfold read at h
    rw [hnormal] at h
    split at h
    · rename_i hget
      exact List.mem_map.2 ⟨_, SortedMap.mem_entries_of_get? hget, rfl⟩
    · cases h

end Shelf

end TaxonomySet
