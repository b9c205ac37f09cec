import TaxonomySet.Decimal.Binary64

namespace TaxonomySet

/-- A JSON value. Numbers written without point and exponent are integers as far as 64 bits hold them, and all others
are floating-point numbers. An object keeps its members in order, repeated ones too. -/
inductive Json where
  | null
  | bool (b : Bool)
  | integer (n : Int)
  | float (x : Binary64)
  | string (s : String)
  | array (items : List Json)
  | object (members : List (String × Json))
deriving Inhabited, Repr

namespace Json

/-- The member of an object with a name; of several the last. -/
def member? (name : String) : Json → Option Json
  | object members => members.reverse.lookup name
  | _ => none

/-- The text of a string. -/
def string? : Json → Option String
  | string s => some s
  | _ => none

/-- The truth value. -/
def bool? : Json → Option Bool
  | bool b => some b
  | _ => none

/-- The integer. -/
def integer? : Json → Option Int
  | integer n => some n
  | _ => none

/-- A natural number. -/
def nat? (j : Json) : Option Nat := j.integer?.bind fun n => if 0 ≤ n then some n.toNat else none

/-- The items of an array. -/
def array? : Json → Option (List Json)
  | array items => some items
  | _ => none

/-- The members of an object. -/
def object? : Json → Option (List (String × Json))
  | object members => some members
  | _ => none

end Json

end TaxonomySet
