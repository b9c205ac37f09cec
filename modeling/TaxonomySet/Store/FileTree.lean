import TaxonomySet.Sorted.Set
import TaxonomySet.Store
import TaxonomySet.Text.Cut

namespace TaxonomySet

/-- Known files and directories. What is not known is missing. -/
structure FileTree where
  /-- The contents of files by absolute path. -/
  files : SortedMap String ByteArray := ∅
  /-- Directories by absolute path, besides those that hold a known file. -/
  directories : SortedSet String := ∅
  /-- The directory that relative paths start from. -/
  workingDirectory : List String
deriving Inhabited

namespace FileTree

/-- The components of a path, without those that stay in place. -/
def components (path : String) : List String :=
  ((Text.pieces '/' path.toList).map String.ofList).filter fun c => c ≠ "" ∧ c ≠ "."

/-- Whether a path starts from the root. -/
def isAbsolute (path : String) : Bool := Text.startsWith "/" path

/-- The absolute path of some components. -/
def join (cs : List String) : String := "/" ++ "/".intercalate cs

/-- The directory that a path starts from. -/
def start (t : FileTree) (path : String) : List String :=
  if isAbsolute path then [] else t.workingDirectory

/-- The place one component further on. -/
def enter (place : List String) (component : String) : List String :=
  if component = ".." then place.dropLast else place ++ [component]

/-- Notes the content of the file at a path, and the directories on the way to it. -/
def note (t : FileTree) (path : String) (content : ByteArray) : FileTree :=
  let places := (components path).foldl (fun ps c => enter (ps.headD []) c :: ps) [t.start path]
  { t with
    files := t.files.insert (join (places.headD [])) content
    directories := t.directories.insertAll (places.tail.map join) }

/-- The files of a list, by paths that may be relative to the working directory. -/
def ofList (workingDirectory : List String) (files : List (String × ByteArray)) : FileTree :=
  files.foldl (fun t f => t.note f.1 f.2) { workingDirectory }

/-- The content of the file at a place. -/
def file? (t : FileTree) (place : List String) : Option ByteArray := t.files.get? (join place)

/-- Whether there is a directory at a place. -/
def isDirectory (t : FileTree) (place : List String) : Bool :=
  place.isPrefixOf t.workingDirectory || t.directories.contains (join place) ||
    t.files.keys.any (Text.startsWith (join place ++ "/"))

/-- Follows components from a place; all that are passed have to be directories. So `a/../b` needs the directory
`a`. -/
def walk (t : FileTree) (place : List String) : List String → Except FileFault (List String)
  | [] => .ok place
  | c :: cs =>
    if t.isDirectory place then t.walk (enter place c) cs
    else .error (if (t.file? place).isSome then .notDirectory else .missing)

/-- The place that a path means; an empty path means none. -/
def locate (t : FileTree) (path : String) : Except FileFault (List String) :=
  if path.isEmpty then .error .missing else t.walk (t.start path) (components path)

/-- Whether a path can only mean a directory. -/
def wantsDirectory (path : String) : Bool :=
  (Text.pieces '/' path.toList).getLast?.any fun last => last = [] ∨ last = ['.'] ∨ last = ['.', '.']

/-- The content of the file at a path. -/
def readFile (t : FileTree) (path : String) : Except FileFault ByteArray :=
  match t.locate path with
  | .error f => .error f
  | .ok place =>
    match t.file? place with
    | some content => if wantsDirectory path then .error .notDirectory else .ok content
    | none => .error (if t.isDirectory place then .isDirectory else .missing)

/-- Writes a file into a directory that is there. -/
def writeFile (t : FileTree) (path : String) (content : ByteArray) : Except FileFault FileTree :=
  match t.locate path with
  | .error f => .error f
  | .ok place =>
    if t.isDirectory place || wantsDirectory path then .error .isDirectory
    else .ok { t with files := t.files.insert (join place) content }

/-- The path that a location means. Only local files can be read. -/
def pathOf (location : String) : Except Fault String :=
  if Text.startsWith "http://" location || Text.startsWith "https://" location then
    .error (.remote location)
  else .ok ((Text.afterStart? "file://" location).getD location)

/-- The content at a location. Relative paths start from the directory `root` if one is given, and
from the working directory otherwise. -/
def fetch (t : FileTree) (root : Option String) (location : String) : Except Fault ByteArray :=
  match pathOf location with
  | .error f => .error f
  | .ok path =>
    let full := root.elim path fun root => if isAbsolute path then path else root ++ "/" ++ path
    match t.readFile full with
    | .ok content => .ok content
    | .error f => .error (.file f)

/-- The paths of a place: the absolute one, and those that climb from the working directory and
descend again. -/
def pathsTo (t : FileTree) (place : List String) : List String :=
  join place :: (List.range (t.workingDirectory.length + 1)).filterMap fun n =>
    let ancestor := t.workingDirectory.take (t.workingDirectory.length - n)
    if ancestor.isPrefixOf place then
      some ("/".intercalate (List.replicate n ".." ++ place.drop ancestor.length))
    else none

/-- The same path with the slash behind one of its colons doubled, in all ways. -/
def withAuthority : List Char → List (List Char)
  | [] => []
  | ':' :: '/' :: rest =>
    (':' :: '/' :: '/' :: rest) :: (withAuthority ('/' :: rest)).map (':' :: ·)
  | c :: rest => (withAuthority rest).map (c :: ·)

/-- The locations in normal form by which documents refer to the file at a path: the path, and the
path as part of an address. -/
def addresses (path : String) : List String :=
  [path, "file://" ++ path, "file://./" ++ path] ++ (withAuthority path.toList).map String.ofList

/-- The locations of all files. -/
def locations (t : FileTree) : List String :=
  t.files.keys.flatMap fun file => (t.pathsTo (components file)).flatMap addresses

/-- The tree as a source of documents. -/
def store (t : FileTree) : Store :=
  let known := t.locations
  { read := fun location =>
      match t.fetch none location with
      | .error f => .error f
      | .ok content => if location ∈ known then .ok content else .error (.file .missing)
    locations := known
    mem_locations := by
      intro location bytes _ h
      split at h
      · cases h
      · split at h
        · assumption
        · cases h }

end FileTree

end TaxonomySet
