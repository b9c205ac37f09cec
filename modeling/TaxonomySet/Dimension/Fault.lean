import TaxonomySet.Diagnostic
import TaxonomySet.Dimension.Arcrole
import TaxonomySet.QName

namespace TaxonomySet

open Dimension

/-- Why a dimensional query has no answer, or what a check of dimensions finds. -/
inductive DimensionFault where
  | notLinked (primary hypercube : QName) (role : String)
  | targetRoleNotResolved (role targetRole : String) (arcrole : Arcrole)
  | cycle (node : QName) (arcrole : Arcrole) (role : String)
  | typedDimensionWithDomain (dimension : QName)
  | tooManyDefaults (dimension : QName) (count : Nat)
deriving DecidableEq, Repr

namespace DimensionFault

/-- The code that a fault is reported under. -/
def code : DimensionFault → String
  | notLinked .. => "xbrldte:HypercubeNotLinked"
  | targetRoleNotResolved .. => "xbrldte:TargetRoleNotResolvedError"
  | cycle .. => "xbrldte:DRSDirectedCycleError"
  | typedDimensionWithDomain .. => "xbrldte:TypedDimensionError"
  | tooManyDefaults .. => "xbrldte:TooManyDefaultMembersError"

/-- The wording of a fault. -/
def message : DimensionFault → String
  | notLinked primary hypercube role =>
    primary.clark ++ " is not linked to hypercube " ++ hypercube.clark ++ " in role " ++ role
  | targetRoleNotResolved role targetRole arcrole =>
    "target role " ++ targetRole ++ " of a " ++ arcrole.uri ++ " arc in role " ++ role ++
      " has no relationships"
  | cycle node arcrole role =>
    "directed cycle through " ++ node.clark ++ " on " ++ arcrole.uri ++ " in role " ++ role
  | typedDimensionWithDomain dimension => "typed dimension " ++ dimension.clark ++ " has a domain"
  | tooManyDefaults dimension count =>
    "dimension " ++ dimension.clark ++ " has " ++ toString count ++ " default members"

/-- Whether the fault is a cycle. -/
def isCycle : DimensionFault → Bool
  | cycle .. => true
  | _ => false

/-- The fault as a diagnostic. -/
def diagnostic (f : DimensionFault) : Diagnostic := .error .conformance f.code f.message

end DimensionFault

end TaxonomySet
