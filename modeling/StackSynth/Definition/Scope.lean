/-
This file holds what the parts of a definition may refer to: the constructs that are there
already, by their paths. A path is taken apart at its last slash into the scope of a construct and
its id.
-/

import StackSynth.Application.Basic
import StackSynth.Definition.Error

namespace StackSynth.Definition

/-- The parts of a text before and behind the last place of a character. -/
def splitAtLast? (separator : Char) (text : String) : Option (String × String) :=
  let backwards := text.toList.reverse
  let last := backwards.takeWhile (· ≠ separator)
  match backwards.drop last.length with
  | [] => none
  | _ :: before => some (String.ofList before.reverse, String.ofList last.reverse)

/-- An application with the constructs that expressions can refer to. -/
structure Scope where
  app : Application
  /-- The constructs by the paths under which they were defined. The root has the empty path. -/
  paths : SortedMap String NodeId

namespace Scope

/-- The application without constructs. -/
def empty : Scope := ⟨.empty, SortedMap.empty.insert "" Tree.rootId⟩

/-- The scope and the id of a path. -/
def locate (scope : Scope) (path : String) : Except DefinitionError (NodeId × String) :=
  let (parent, id) := (splitAtLast? '/' path).getD ("", path)
  if id = "" then .error (.emptyId path)
  else
    match scope.paths.get? parent with
    | some node => .ok (node, id)
    | none => .error (.undeclaredParent path parent)

/-- The construct at a path, which `site` refers to. -/
def find (scope : Scope) (site path : String) : Except DefinitionError NodeId :=
  match scope.paths.get? path with
  | some node => .ok node
  | none => .error (.unknownPath path site)

/-- The scope with a new construct under a path. -/
def grown (scope : Scope) (path : String)
    (added : Except ConstructError (NodeId × Application)) : Except DefinitionError Scope := do
  let (node, app) ← added.mapError .construct
  return ⟨app, scope.paths.insert path node⟩

end Scope

end StackSynth.Definition
