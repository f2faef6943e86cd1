/-
This file connects the commands with the machine they run on: it takes the working directory into
a file system, runs the command that the arguments ask for on it, and brings what the command has
written and printed back.
-/

import StackSynth.CommandLine.Run

namespace StackSynth

/-- An entry of the machine. A link within the directory `top` stays a link; another one is taken
by what it leads to if that is a file, and is a link to nowhere otherwise. -/
partial def entryOf (top : String) (found : IO.FS.DirEntry) : IO Entry := do
  match (← found.path.symlinkMetadata).type with
  | .dir =>
    let entries ← (← found.path.readDir).mapM (fun inner => do
      return (inner.fileName, ← entryOf top inner))
    return .directory entries.toList
  | .symlink =>
    let target := (← IO.FS.realPath found.path).toString
    if target.startsWith (top ++ "/") then return .link (target.drop top.length).toString
    if (← found.path.pathExists) && !(← found.path.isDir) then
      return .file (← IO.FS.readBinFile found.path)
    return .link target
  | _ => return .file (← IO.FS.readBinFile found.path)

/-- The working directory of the machine. -/
def workingDirectory : IO FileSystem := do
  let top ← IO.FS.realPath (← IO.currentDir)
  let entries ← (← top.readDir).mapM (fun found => do
    return (found.fileName, ← entryOf top.toString found))
  return ⟨.directory entries.toList⟩

/-- Brings files that have changed to the machine. -/
def bringBack (before after : FileSystem) : IO Unit := do
  for (path, contents) in after.changesSince before do
    match Path.parent? path with
    | some parent => if parent ≠ "" then IO.FS.createDirAll parent
    | none => pure ()
    IO.FS.writeBinFile path contents

/-- Runs a command in the working directory. -/
def runHere (arguments : List String) : IO UInt32 := do
  let before ← workingDirectory
  let outcome := CommandLine.run before arguments
  bringBack before outcome.system
  (← IO.getStdout).putStr outcome.stdout
  (← IO.getStderr).putStr outcome.stderr
  return outcome.code.toUInt32

end StackSynth

/-- Runs the command that the arguments ask for. -/
def main (arguments : List String) : IO UInt32 := StackSynth.runHere arguments
