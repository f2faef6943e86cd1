/-
This file builds the application of a definition, in two rounds. The first creates every construct
but the outputs, so that a construct comes behind the constructs around it; the second gives
resources their properties and adds the outputs, so that expressions may refer to constructs that
are defined later.
-/

import StackSynth.Definition.Expression
import StackSynth.Definition.Reading

namespace StackSynth.Definition

/-- Where the assets of a definition come from. -/
structure Surroundings where
  system : FileSystem
  /-- The directory from which the paths of assets start. -/
  base : String

namespace Surroundings

/-- Identifies the content of assets. -/
def bundler (surroundings : Surroundings) : Asset.Bundler := Asset.localBundler surroundings.system

/-- The source of a file asset: all of a directory without excluded entries, or one file. -/
def fileSource (surroundings : Surroundings) (source : String) (exclude : List String) :
    Asset.Source :=
  let path := Path.join surroundings.base source
  if surroundings.system.isDirectory path then .directory path exclude else .file path

/-- The source of an image asset. -/
def imageSource (surroundings : Surroundings) (image : Asset.Image) : Asset.Source :=
  .image { image with directory := Path.join surroundings.base image.directory }

end Surroundings

/-! ### The first round -/

/-- The application with an asset, and its construct. -/
def addAsset (app : Application) (surroundings : Surroundings) (scope : NodeId) (id : String)
    (source : Asset.Source) : Except ConstructError (NodeId × Application) := do
  let (handle, app) ← app.addAsset surroundings.bundler scope id source
  return (handle.node, app)

/-- The application with a construct of given content; none for outputs, which are added when all
other constructs are there. -/
def create? (app : Application) (surroundings : Surroundings) (scope : NodeId) (id : String) :
    Content → Option (Except ConstructError (NodeId × Application))
  | .group => some (app.addGroup scope id)
  | .stack options => some (app.addStack scope id options)
  | .nestedStack => some (app.addNestedStack scope id)
  | .resource type attributes _ => some (app.addResource scope id ⟨type, [], attributes⟩)
  | .parameter declaration => some (app.addParameter scope id declaration)
  | .output _ _ _ => none
  | .fileAsset source exclude =>
    some (addAsset app surroundings scope id (surroundings.fileSource source exclude))
  | .imageAsset image =>
    some (addAsset app surroundings scope id (surroundings.imageSource image))

/-- Creates a construct. Of an output only the path is checked. -/
def declare (surroundings : Surroundings) (scope : Scope) (item : Item) :
    Except DefinitionError Scope := do
  let (node, id) ← scope.locate item.path
  match create? scope.app surroundings node id item.content with
  | some created => scope.grown item.path created
  | none => return scope

/-! ### The second round -/

/-- The application in which a resource has certain properties besides its own. -/
def assign (app : Application) (node : NodeId) (properties : List (String × Deferred)) :
    Except ConstructError Application :=
  properties.foldlM (fun (app : Application) property =>
    app.setProperty node property.1 property.2) app

/-- Gives a resource its properties. -/
def setProperties (scope : Scope) (path : String) (properties : List (String × Json)) :
    Except DefinitionError Scope := do
  let node ← scope.find path path
  let values ← scope.memberValues path properties
  return { scope with app := ← (assign scope.app node values).mapError .construct }

/-- Adds an output. -/
def addOutput (scope : Scope) (path : String) (value : Json)
    (description exported : Option String) : Except DefinitionError Scope := do
  let (node, id) ← scope.locate path
  let value ← scope.value path value
  scope.grown path (scope.app.addOutput node id ⟨value, description, exported⟩)

/-- Gives values to what has values. -/
def complete (scope : Scope) (item : Item) : Except DefinitionError Scope :=
  match item.content with
  | .resource _ _ properties => setProperties scope item.path properties
  | .output value description exported => addOutput scope item.path value description exported
  | _ => .ok scope

/-- The application of a definition. -/
def build (definition : Definition) (surroundings : Surroundings) :
    Except DefinitionError Application := do
  let declared ← definition.constructs.foldlM (declare surroundings) .empty
  return (← definition.constructs.foldlM complete declared).app

/-! ### Definitions in files -/

/-- The name of a text that comes from no file. -/
def inlineOrigin : String := "<inline>"

/-- The definition in a text. -/
def parse (origin text : String) : Except DefinitionError Definition :=
  (ofText text).mapError (.faulty origin)

/-- The text of a file, which must be encoded properly. -/
def readText (system : FileSystem) (path : String) : Except DefinitionError String := do
  let contents ← (system.readFile path).mapError (fun cause => .unreadable path cause.message)
  match String.fromUTF8? contents with
  | some text => return text
  | none => throw (.unreadable path "stream did not contain valid UTF-8")

/-- The application that a file defines. Assets are looked for next to the file. -/
def load (system : FileSystem) (path : String) : Except DefinitionError Application := do
  let definition ← parse path (← readText system path)
  definition.build ⟨system, (Path.parent? path).getD "."⟩

end StackSynth.Definition
