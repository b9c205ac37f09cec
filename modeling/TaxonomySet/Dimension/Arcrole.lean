import TaxonomySet.Vocabulary

namespace TaxonomySet.Dimension

/-- What a dimensional relationship says. -/
inductive Arcrole where
  | all
  | notAll
  | hypercubeDimension
  | dimensionDomain
  | domainMember
  | dimensionDefault
deriving DecidableEq, Repr

namespace Arcrole

/-- The URI of an arcrole. -/
def uri : Arcrole → String
  | all => Vocabulary.all
  | notAll => Vocabulary.notAll
  | hypercubeDimension => Vocabulary.hypercubeDimension
  | dimensionDomain => Vocabulary.dimensionDomain
  | domainMember => Vocabulary.domainMember
  | dimensionDefault => Vocabulary.dimensionDefault

/-- All arcroles in their order. -/
def listed : List Arcrole :=
  [all, notAll, hypercubeDimension, dimensionDomain, domainMember, dimensionDefault]

/-- The arcrole with a URI. -/
def ofUri? (s : String) : Option Arcrole := listed.find? (·.uri == s)

/-- Whether the relationship ties a primary item to a hypercube. -/
def isHasHypercube : Arcrole → Bool
  | all | notAll => true
  | _ => false

/-- The place of an arcrole in the order. -/
def rank : Arcrole → Nat
  | all => 0
  | notAll => 1
  | hypercubeDimension => 2
  | dimensionDomain => 3
  | domainMember => 4
  | dimensionDefault => 5

instance : Ord Arcrole := ⟨compareOn rank⟩

instance : Std.TransOrd Arcrole := inferInstanceAs (Std.TransCmp (compareOn rank))

end Arcrole

end TaxonomySet.Dimension
