/-
This file holds path texts. A path is its pieces between slashes; empty pieces and inner `.`
pieces carry nothing, and only the other ones count when a path is taken apart. Paths are shown as
they were written, so joining and taking the parent work on the text.
-/

namespace StackSynth.Path

/-- The pieces of a path, empty ones included. -/
def pieces (path : String) : List String := path.splitOn "/"

/-- The pieces with the information whether each one counts: an empty piece never does, and `.`
only at the very beginning. -/
def marked (path : String) : List (String × Bool) :=
  match pieces path with
  | [] => []
  | head :: rest =>
    (head, head != "") :: rest.map (fun piece => (piece, piece != "" && piece != "."))

/-- The pieces up to the last one that counts. -/
def trimmed (pieces : List (String × Bool)) : List (String × Bool) :=
  (pieces.reverse.dropWhile (fun piece => !piece.2)).reverse

/-- The path without its last piece; none if no piece counts. -/
def parent? (path : String) : Option String :=
  match (trimmed (marked path)).reverse with
  | [] => none
  | _ :: rest =>
    let remaining := trimmed rest.reverse
    if remaining.isEmpty && path.startsWith "/" then some "/"
    else some ("/".intercalate (remaining.map (·.1)))

/-- The name that a path ends in; none if it ends in `.` or `..` or is empty. -/
def fileName? (path : String) : Option String :=
  match (trimmed (marked path)).getLast? with
  | some (name, _) => if name = "." || name = ".." then none else some name
  | none => none

/-- `path` seen from `base`. An absolute path stays what it is. -/
def join (base path : String) : String :=
  if path.startsWith "/" || base = "" then path
  else if base.endsWith "/" then base ++ path
  else base ++ "/" ++ path

end StackSynth.Path
