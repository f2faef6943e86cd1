/-
This file identifies files and directories by their content. A directory is a list of records, one
for every entry below it: its kind, its path from the directory, and for a file the digest of its
contents, for a link that of its target. The records are sorted by path, so neither the order of
creation nor the place of the directory shows in the digest, and entries with an excluded name are
left out together with all below them.
-/

import StackSynth.Digest.Text
import StackSynth.FileSystem.Basic

namespace StackSynth

/-- Why content cannot be identified. -/
inductive HashError where
  /-- The directory at a path cannot be walked. -/
  | walk (path : String) (cause : OsError)
  /-- The file at a path cannot be read. -/
  | unreadable (path : String) (message : String)
deriving DecidableEq, Repr

/-- The wording of an error. -/
def HashError.message : HashError → String
  | .walk path cause =>
    "failed to walk directory: IO error for operation on " ++ path ++ ": " ++ cause.message
  | .unreadable path message => "failed to read file " ++ path ++ ": " ++ message

namespace Entry

/-- The record of an entry at a path. -/
def record (path : String) : Entry → String
  | .file contents => "F:" ++ path ++ ":" ++ contentHash contents
  | .directory _ => "D:" ++ path
  | .link target => "L:" ++ path ++ ":" ++ textHash target

mutual

/-- The records of an entry and of all entries below it, each with its path. -/
def records (exclude : List String) (path : String) : Entry → List (String × String)
  | .directory entries =>
    (path, record path (.directory entries)) :: recordsBelow exclude (path ++ "/") entries
  | .file contents => [(path, record path (.file contents))]
  | .link target => [(path, record path (.link target))]

/-- The records of all entries of a directory whose paths begin with `start`. -/
def recordsBelow (exclude : List String) (start : String) :
    List (String × Entry) → List (String × String)
  | [] => []
  | (name, entry) :: rest =>
    if exclude.contains name then recordsBelow exclude start rest
    else records exclude (start ++ name) entry ++ recordsBelow exclude start rest

end

/-- Records in the order of their paths. -/
def sortRecords (records : List (String × String)) : List (String × String) :=
  records.mergeSort (fun first second => (compare first.1 second.1).isLE)

/-- The digest of records, each on a line of its own. -/
def digestRecords (records : List (String × String)) : ContentHash :=
  textHash (String.join ((sortRecords records).map (·.2 ++ "\n")))

/-- The digest of what a directory holds. What is no directory holds nothing. -/
def digest (exclude : List String) : Entry → ContentHash
  | .directory entries => digestRecords (recordsBelow exclude "" entries)
  | _ => digestRecords []

end Entry

namespace FileSystem

/-- The digest of the file at a path. -/
def fileHash (system : FileSystem) (path : String) : Except HashError ContentHash :=
  match system.readFile path with
  | .ok contents => .ok (contentHash contents)
  | .error error => .error (.unreadable path error.message)

/-- The digest of the directory at a path. The exclusions apply to the directory itself, by the
name that the path ends in, but not to a link to it. -/
def directoryHash (system : FileSystem) (path : String) (exclude : List String) :
    Except HashError ContentHash := do
  let onWalk {α : Type} (result : Except OsError α) : Except HashError α :=
    result.mapError (.walk path)
  let root ← onWalk (system.find false path)
  let target ← onWalk (system.find true path)
  if root.isDirectory && exclude.contains ((Path.fileName? path).getD path) then
    return Entry.digestRecords []
  else return target.digest exclude

end FileSystem

end StackSynth
