import TaxonomySet.Json.Value
import TaxonomySet.Sorted.Set

namespace TaxonomySet.Json

/-- The fields of a structure, as far as they are there. A structure is written as an object, in which fields that are
not known are passed over and none is repeated, or as an array of all fields in their order. -/
def fields? (names : List String) : Json → Option (List (Option Json))
  | object members => names.mapM fun name =>
    match members.filter (·.1 == name) with
    | [] => some none
    | [(_, j)] => some (some j)
    | _ => none
  | array items => if items.length = names.length then some (items.map some) else none
  | _ => none

/-- A field that has to be there. -/
def required {α : Type} (read : Json → Option α) (field : Option Json) : Option α := field.bind read

/-- A field that may be absent or null. -/
def optional {α : Type} (read : Json → Option α) : Option Json → Option (Option α)
  | none | some null => some none
  | some j => (read j).map some

/-- An optional value, null if there is none. -/
def ofOption {α : Type} (write : α → Json) : Option α → Json
  | some a => write a
  | none => null

/-- The items of an array. -/
def listOf? {α : Type} (read : Json → Option α) (j : Json) : Option (List α) := j.array?.bind (·.mapM read)

/-- A set of strings. -/
def stringSet? (j : Json) : Option (SortedSet String) := (listOf? string? j).map .ofList

/-- A map by strings; of repeated members the last counts. -/
def mapOf? {α : Type} (read : Json → Option α) (j : Json) : Option (SortedMap String α) :=
  j.object?.bind fun members =>
    (members.mapM fun m => (read m.2).map (m.1, ·)).map .ofList

/-- A map by strings as an object. -/
def ofMap {α : Type} (write : α → Json) (m : SortedMap String α) : Json :=
  object (m.entries.map fun e => (e.1, write e.2))

/-- A natural number below a bound. -/
def natBelow? (bound : Nat) (j : Json) : Option Nat := j.nat?.bind fun n => if n < bound then some n else none

/-- A number; integers count as numbers, and infinite ones do not. -/
def number? : Json → Option Binary64
  | float x => if x.isFinite then some x else none
  | integer n => some (if n < 0 then (Binary64.ofNat n.natAbs).neg else .ofNat n.toNat)
  | _ => none

/-- One of several words, written as a string or as an object with the word for its only member. -/
def word? {α : Type} (words : List (String × α)) : Json → Option α
  | string s => words.lookup s
  | object [(s, null)] => words.lookup s
  | _ => none

end TaxonomySet.Json
