import TaxonomySet.QName
import TaxonomySet.Text.Blank

namespace TaxonomySet

/-- Whether the facts of a concept hold at an instant or over a duration. -/
inductive PeriodType where
  | instant
  | duration
deriving DecidableEq, Repr

/-- The period type that a word names. -/
def PeriodType.ofWord? (word : String) : Option PeriodType :=
  match Text.trim word with
  | "instant" => some .instant
  | "duration" => some .duration
  | _ => none

/-- The side of the books on which a concept stands. -/
inductive Balance where
  | debit
  | credit
deriving DecidableEq, Repr

/-- The balance that a word names. -/
def Balance.ofWord? (word : String) : Option Balance :=
  match Text.trim word with
  | "debit" => some .debit
  | "credit" => some .credit
  | _ => none

/-- A declared element. -/
structure Element where
  id : Option String := none
  name : QName
  typeName : Option QName := none
  group : Option QName := none
  isAbstract : Bool := false
  nillable : Bool := false
  periodType : Option PeriodType := none
  balance : Option Balance := none
  /-- The element that declares the values of a typed dimension. -/
  typedDomain : Option String := none
  document : String
deriving DecidableEq, Repr

/-- A named type and the type that it derives from. -/
structure TypeDef where
  name : QName
  base : Option QName
deriving DecidableEq, Repr

/-- What an element is in a taxonomy. -/
inductive ConceptClass where
  | item
  | tuple
  | hypercube
  | dimension (typed : Bool)
  | other
deriving DecidableEq, Repr

namespace ConceptClass

/-- Items that are neither hypercubes nor dimensions. -/
def isPlainItem (c : ConceptClass) : Bool := c == item

/-- Dimensions of either kind. -/
def isDimension : ConceptClass → Bool
  | dimension _ => true
  | _ => false

/-- How messages name a class. -/
def text : ConceptClass → String
  | item => "Item"
  | tuple => "Tuple"
  | hypercube => "Hypercube"
  | dimension typed => "Dimension \x7b typed: " ++ (if typed then "true" else "false") ++ " \x7d"
  | other => "Other"

end ConceptClass

end TaxonomySet
