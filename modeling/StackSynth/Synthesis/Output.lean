/-
This file writes an assembly to a file system. The documents are written in the order of their
names and the manifest comes last; the first refusal of the file system ends the writing, and what
was written before stays.
-/

import StackSynth.Synthesis.Assembly

namespace StackSynth

/-- How an assembly is written. -/
structure OutputOptions where
  directory : String
  /-- Whether documents are indented. -/
  indented : Bool
  /-- Whether the manifest is written too. -/
  withManifest : Bool

/-- The way to write an assembly if nothing else is asked for. -/
def OutputOptions.standard : OutputOptions := ⟨"weave.out", true, true⟩

namespace Assembly

/-- The texts to write, each with the name of its file. -/
def texts (assembly : Assembly) (options : OutputOptions) : List (String × String) :=
  (assembly.documents.mapValues (fun template => template.toJson.render options.indented)).entries
    ++ if options.withManifest then
        [(manifestFile, assembly.manifest.toJson.render options.indented)]
      else []

/-- Writes files into a directory. Gives the paths written and the file system they are in. -/
def writeFiles (directory : String) : FileSystem → List (String × String) →
    Except SynthesisError (List String) × FileSystem
  | system, [] => (.ok [], system)
  | system, (file, text) :: rest =>
    let path := Path.join directory file
    match system.writeFile path text.toUTF8 with
    | .error cause => (.error (.write path cause), system)
    | .ok system =>
      let (written, system) := writeFiles directory system rest
      (written.map (path :: ·), system)

/-- Writes the assembly, creating the directory where it is missing. -/
def writeTo (assembly : Assembly) (options : OutputOptions) (system : FileSystem) :
    Except SynthesisError (List String) × FileSystem :=
  match system.makeDirectories options.directory with
  | .error cause => (.error (.write options.directory cause), system)
  | .ok system => writeFiles options.directory system (assembly.texts options)

end Assembly

end StackSynth
