import Std.Time.DateTime.Timestamp
import TaxonomySet.Command.Run

namespace TaxonomySet.Main

open Command

/-- Reads the file at a location, if it can be read. -/
def readLocation (location : String) : IO (Option (String × ByteArray)) := do
  match FileTree.pathOf location with
  | .error _ => return none
  | .ok path =>
    try return some (path, ← IO.FS.readBinFile path)
    catch _ => return none

/-- Runs a command until it asks for no further files. -/
partial def settle (request : Request) (created : String) (t : FileTree) (asked : List String) :
    IO Outcome := do
  let outcome := run t created request
  let fresh := (outcome.asked.filter (!asked.contains ·)).eraseDups
  if fresh.isEmpty then return outcome
  let found ← fresh.filterMapM readLocation
  settle request created (found.foldl (fun t f => t.note f.1 f.2) t) (asked ++ fresh)

/-- Writes the snapshot of a command, if there is one. -/
def save (outcome : Outcome) : IO Outcome := do
  match outcome.save with
  | none => return outcome
  | some (path, text) =>
    let written ← try IO.FS.writeFile path text; pure true catch _ => pure false
    return outcome.afterSaving written

/-- A duration in milliseconds with two decimals. -/
def duration (nanoseconds : Nat) : String :=
  let hundredths := (nanoseconds + 5000) / 10000
  toString (hundredths / 100) ++ "." ++ Timestamp.twoDigits (hundredths % 100) ++ "ms"

/-- Prints one line. -/
def printLine (nanoseconds : Nat) : Line → IO Unit
  | .text s => IO.println s
  | .time => IO.println ("  Time: " ++ duration nanoseconds)

/-- Runs one command. As long as it asks for files that are not known, these are read and it runs again. -/
def execute (request : Request) : IO UInt32 := do
  let directory ← IO.currentDir
  let clock ← Std.Time.Timestamp.now
  let begun ← IO.monoNanosNow
  let outcome ← settle request (Timestamp.ofSeconds clock.toSecondsSinceUnixEpoch.val.toNat)
    { workingDirectory := FileTree.components directory.toString } []
  let ended ← IO.monoNanosNow
  let outcome ← save outcome
  outcome.lines.forM (printLine (ended - begun))
  if let some complaint := outcome.complaint? then IO.eprintln complaint
  return if outcome.succeeds then 0 else 1

/-- How the program is used. -/
def usage : String :=
  "Usage: taxonomy-set load [--snapshot PATH] [--no-linkbases] [--serial] [--validate] [--strict] ENTRY...\n" ++
  "       taxonomy-set hypercubes --primary CONCEPT --role ROLE SOURCE\n" ++
  "       taxonomy-set label --concept CONCEPT [--lang LANG] [--label-role ROLE]... [--link-role ROLE] SOURCE"

/-- Does what a command line asks for. -/
def start (args : List String) : IO UInt32 := do
  match Request.ofWords args with
  | .help =>
    IO.println usage
    return 0
  | .wrong =>
    IO.eprintln usage
    return 2
  | .meant request => execute request

end TaxonomySet.Main

/-- The program. -/
def main (args : List String) : IO UInt32 := TaxonomySet.Main.start args
