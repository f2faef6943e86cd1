/-
This file holds a tree of files, directories and symbolic links, and what the operating system
does with it: following a path, reading and writing a file, creating directories. Paths start at
the top of the tree, which is the working directory. A link is followed wherever a path goes on
behind it, at most forty times on one path.
-/

import StackSynth.Fields
import StackSynth.FileSystem.Path

namespace StackSynth

/-- Why the operating system refuses an operation. -/
inductive OsError where
  | notFound
  | alreadyExists
  | notADirectory
  | isADirectory
  | tooManyLinks
deriving DecidableEq, Repr

/-- The wording of an operating system error. -/
def OsError.message : OsError → String
  | .notFound => "No such file or directory (os error 2)"
  | .alreadyExists => "File exists (os error 17)"
  | .notADirectory => "Not a directory (os error 20)"
  | .isADirectory => "Is a directory (os error 21)"
  | .tooManyLinks => "Too many levels of symbolic links (os error 40)"

/-- What stands under a name. -/
inductive Entry where
  | file (contents : ByteArray)
  | directory (entries : List (String × Entry))
  | link (target : String)
deriving Inhabited

namespace Entry

/-- Whether the entry is a directory. -/
def isDirectory : Entry → Bool
  | .directory _ => true
  | _ => false

/-- The entry at a location, which names one directory entry after the other. -/
def at? : List String → Entry → Option Entry
  | [], entry => some entry
  | name :: rest, .directory entries => (Fields.get? name entries).bind (at? rest)
  | _ :: _, _ => none

/-- The tree with another entry at a location whose directory exists. -/
def place (new : Entry) : List String → Entry → Entry
  | [], _ => new
  | name :: rest, .directory entries =>
    .directory (Fields.set name
      (place new rest ((Fields.get? name entries).getD (.directory []))) entries)
  | _ :: _, other => other

mutual

/-- The files at and below an entry, each with its path. -/
def files (path : String) : Entry → List (String × ByteArray)
  | .file contents => [(path, contents)]
  | .directory entries => filesBelow path entries
  | .link _ => []

/-- The files below a directory. -/
def filesBelow (path : String) : List (String × Entry) → List (String × ByteArray)
  | [] => []
  | (name, entry) :: rest => files (Path.join path name) entry ++ filesBelow path rest

end

end Entry

/-- A file system, given by its working directory. -/
structure FileSystem where
  top : Entry

namespace FileSystem

/-- The file system without any entry. -/
def empty : FileSystem := ⟨.directory []⟩

/-- The number of links that one path may follow. -/
def linkLimit : Nat := 40

/-- Where a path leads. -/
inductive Target where
  /-- To an entry. -/
  | entry (location : List String) (entry : Entry)
  /-- To a name that is free in an existing directory. -/
  | free (directory : List String) (name : String)

/-- Goes from the location `here` along the remaining pieces, following at most `links` links.
The last piece is followed, if it is a link, only when `followLast` says so. -/
def walk (top : Entry) (followLast : Bool) (links : Nat) (here : List String)
    (pieces : List String) : Except OsError Target :=
  match pieces with
  | [] =>
    match top.at? here with
    | some entry => .ok (.entry here entry)
    | none => .error .notFound
  | name :: rest =>
    match top.at? here with
    | none => .error .notFound
    | some (.directory entries) =>
      if name = "" || name = "." then walk top followLast links here rest
      else if name = ".." then walk top followLast links here.dropLast rest
      else
        match Fields.get? name entries with
        | none => if rest.isEmpty then .ok (.free here name) else .error .notFound
        | some (.link target) =>
          if rest.isEmpty && !followLast then .ok (.entry (here ++ [name]) (.link target))
          else
            match links with
            | 0 => .error .tooManyLinks
            | links + 1 =>
              let start := if target.startsWith "/" then [] else here
              walk top followLast links start (Path.pieces target ++ rest)
        | some _ => walk top followLast links (here ++ [name]) rest
    | some _ => .error .notADirectory
termination_by (links, pieces.length)

/-- Where a path leads from the working directory. -/
def locate (system : FileSystem) (followLast : Bool) (path : String) : Except OsError Target :=
  if path = "" then .error .notFound
  else walk system.top followLast linkLimit [] (Path.pieces path)

/-- The entry at a path. -/
def find (system : FileSystem) (followLast : Bool) (path : String) : Except OsError Entry := do
  match ← system.locate followLast path with
  | .entry _ entry => return entry
  | .free _ _ => throw .notFound

/-- Whether a path leads to a directory. -/
def isDirectory (system : FileSystem) (path : String) : Bool :=
  match system.find true path with
  | .ok entry => entry.isDirectory
  | .error _ => false

/-- The contents of a file. -/
def readFile (system : FileSystem) (path : String) : Except OsError ByteArray := do
  match ← system.find true path with
  | .file contents => return contents
  | .directory _ => throw .isADirectory
  | .link _ => throw .notFound

/-- The file system with another entry at a location. -/
def place (system : FileSystem) (location : List String) (entry : Entry) : FileSystem :=
  ⟨Entry.place entry location system.top⟩

/-- Writes a file, over an old one or under a free name. -/
def writeFile (system : FileSystem) (path : String) (contents : ByteArray) :
    Except OsError FileSystem := do
  match ← system.locate true path with
  | .free directory name => return system.place (directory ++ [name]) (.file contents)
  | .entry _ (.directory _) => throw .isADirectory
  | .entry location _ => return system.place location (.file contents)

/-- Creates an entry under a free name. -/
def create (system : FileSystem) (path : String) (entry : Entry) : Except OsError FileSystem := do
  match ← system.locate false path with
  | .free directory name => return system.place (directory ++ [name]) entry
  | .entry _ _ => throw .alreadyExists

/-- A path without slashes at its end. -/
def withoutEndSlashes (path : String) : String :=
  String.ofList (path.toList.reverse.dropWhile (· = '/')).reverse

/-- Creates a directory in an existing one. -/
def makeDirectory (system : FileSystem) (path : String) : Except OsError FileSystem :=
  system.create (withoutEndSlashes path) (.directory [])

/-- Creates a directory and all missing ones above it; `fuel` bounds their number. -/
def makeDirectoriesWithin : Nat → FileSystem → String → Except OsError FileSystem
  | 0, _, _ => .error .notFound
  | fuel + 1, system, path =>
    let orExisting (system : FileSystem) (error : OsError) : Except OsError FileSystem :=
      if system.isDirectory path then .ok system else .error error
    if path = "" then .ok system
    else
      match system.makeDirectory path with
      | .ok made => .ok made
      | .error .notFound =>
        match Path.parent? path with
        | none => .error .notFound
        | some parent =>
          match makeDirectoriesWithin fuel system parent with
          | .error error => .error error
          | .ok system =>
            match system.makeDirectory path with
            | .ok made => .ok made
            | .error error => orExisting system error
      | .error error => orExisting system error

/-- Creates a directory and all missing ones above it. A directory that is there already is
left alone. -/
def makeDirectories (system : FileSystem) (path : String) : Except OsError FileSystem :=
  makeDirectoriesWithin (path.length + 1) system path

/-- The files at and below a path, links not followed, each under `path` joined with the names
that lead to it. -/
def filesBelow (system : FileSystem) (path : String) : List (String × ByteArray) :=
  match system.find true path with
  | .ok entry => entry.files path
  | .error _ => []

/-- All files, each under the names that lead to it. -/
def files (system : FileSystem) : List (String × ByteArray) := system.top.files ""

/-- The files that were not there before or had other contents. -/
def changesSince (after before : FileSystem) : List (String × ByteArray) :=
  let old := before.files
  after.files.filter (fun file =>
    match Fields.get? file.1 old with
    | some contents => contents != file.2
    | none => true)

end FileSystem

end StackSynth
