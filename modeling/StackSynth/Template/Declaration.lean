/-
This file adds declarations to a template. Each of its three sections holds a name at most once,
so a declaration whose name is taken in its section is refused.
-/

import StackSynth.Template.Basic

namespace StackSynth

/-- What a template declares. -/
inductive Declaration where
  | parameter (declaration : ParameterDecl)
  | resource (declaration : ResourceDecl)
  | output (declaration : OutputDecl)

/-- The declaration as messages call it. -/
def Declaration.kind : Declaration → String
  | .parameter _ => "parameter"
  | .resource _ => "resource"
  | .output _ => "output"

namespace Template

/-- Whether a name is taken in the section of a declaration. -/
def declares (template : Template) (name : String) : Declaration → Bool
  | .parameter _ => template.parameters.contains name
  | .resource _ => Fields.has name template.resources
  | .output _ => template.outputs.contains name

/-- The template with a declaration under a name, in place of what its section has there. -/
def insert (template : Template) (name : String) : Declaration → Template
  | .parameter declaration =>
    { template with parameters := template.parameters.insert name declaration }
  | .resource declaration =>
    { template with resources := Fields.set name declaration template.resources }
  | .output declaration => { template with outputs := template.outputs.insert name declaration }

end Template

end StackSynth
