import TaxonomySet.Text.Cut

namespace TaxonomySet

open Text

namespace Location

/-- Cuts a location behind the first `://`. -/
def cutScheme? : List Char → Option (List Char × List Char)
  | [] => none
  | ':' :: '/' :: '/' :: rest => some ([':', '/', '/'], rest)
  | c :: rest => (cutScheme? rest).map fun p => (c :: p.1, p.2)

/-- The scheme and authority of a location, empty if it has none, and its path. -/
def splitAuthority (cs : List Char) : List Char × List Char :=
  match cutScheme? cs with
  | some (scheme, rest) => (scheme ++ rest.takeWhile (· != '/'), rest.dropWhile (· != '/'))
  | none => ([], cs)

/-- Whether a path starts at the root. -/
def isAbsolute (path : List Char) : Bool := path.head? == some '/'

/-- Enters one segment into the segments so far, the last of them first. A `..` takes back an
ordinary segment; with none left it is kept, unless the path starts at the root. -/
def enter (absolute : Bool) (entered : List (List Char)) (segment : List Char) :
    List (List Char) :=
  if segment = [] ∨ segment = ['.'] then entered
  else if segment = ['.', '.'] then
    match entered with
    | last :: before =>
      if last ≠ ['.', '.'] then before else if absolute then entered else segment :: entered
    | [] => if absolute then [] else [segment]
  else segment :: entered

/-- The segments of a path in normal form. -/
def segments (path : List Char) : List (List Char) :=
  ((pieces '/' path).foldl (enter (isAbsolute path)) []).reverse

/-- Segments with a slash between each two. -/
def joinSegments : List (List Char) → List Char
  | [] => []
  | [s] => s
  | s :: t :: rest => s ++ '/' :: joinSegments (t :: rest)

/-- The normal form of a path. It has no empty and no `.` segment, and climbs with `..` at its start only. -/
def normalPath (path : List Char) : List Char :=
  if isAbsolute path then '/' :: joinSegments (segments path) else joinSegments (segments path)

/-- The normal form of a location. -/
def normalChars (cs : List Char) : List Char :=
  (splitAuthority cs).1 ++ normalPath (splitAuthority cs).2

/-- The normal form of a location. Scheme and authority are kept as they are. It is stable, so that a document that is
referred to again is recognised. -/
def normalize (location : String) : String := String.ofList (normalChars location.toList)

/-- Resolves a reference against the location of the document that holds it. An empty reference
means that document; one with a scheme or from the root stands alone. -/
def resolve (base reference : String) : String :=
  if reference.isEmpty then normalize base
  else if (cutScheme? reference.toList).isSome || isAbsolute reference.toList then
    normalize reference
  else normalize (String.ofList (throughLast '/' base.toList ++ reference.toList))

/-- The parts of a reference before and after its first `#`. -/
def splitFragment (reference : String) : String × Option String :=
  match cut? '#' reference with
  | some (document, fragment) => (document, some fragment)
  | none => (reference, none)

/-- Resolves a reference and keeps its fragment as it is. -/
def resolveReference (base reference : String) : String :=
  match cut? '#' reference with
  | some (document, fragment) => resolve base document ++ "#" ++ fragment
  | none => resolve base reference

end Location

end TaxonomySet
