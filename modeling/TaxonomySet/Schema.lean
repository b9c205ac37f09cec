import TaxonomySet.Concept
import TaxonomySet.Role.Registry

namespace TaxonomySet

/-- The schema that an import refers to. -/
structure Import where
  ns : Option String
  location : String
deriving DecidableEq, Repr

/-- The linkbase that a schema refers to. -/
structure LinkbaseRef where
  location : String
  role : Option String
deriving DecidableEq, Repr

/-- The declarations and references of one schema document, each kind in document order. -/
structure Schema where
  location : String
  ns : String
  nsPrefix : Option String := none
  elements : List Element := []
  types : List TypeDef := []
  roleTypes : List RoleType := []
  arcroleTypes : List ArcroleType := []
  imports : List Import := []
  includes : List String := []
  linkbaseRefs : List LinkbaseRef := []
  hasLinkbases : Bool := false
deriving DecidableEq

end TaxonomySet
