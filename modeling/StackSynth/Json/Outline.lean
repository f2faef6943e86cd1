/-
This file holds what a text that should be JSON contains, as far as it can be told. A text is
outlined up to the first place where it stops being JSON, and that place stays in the outline. So
whoever takes a value of a certain shape from an outline meets the faults of the text and the
mismatches of the shape in the order of the text, and the first of them decides.

A value that is passed over is held to less than one that is read: numbers may be too great,
escaped surrogates may stand alone and containers may be nested to any depth. Such faults are
kept at their leaf, where only reading meets them.
-/

import StackSynth.Json.Basic

namespace StackSynth.Json

/-- Why a text is refused. -/
inductive Fault where
  /-- The text is not JSON. -/
  | malformed
  /-- The text is JSON so far, but its shape is not the expected one. -/
  | mismatched
  /-- The text ends too early. -/
  | truncated
deriving DecidableEq, Repr

/-- A place where the text stops being JSON: the fault of reading up to it and that of passing
over it. -/
structure Break where
  reading : Fault
  skipping : Fault
deriving DecidableEq, Repr

/-- A break that is the same for reading and for passing over. -/
def Break.both (fault : Fault) : Break := ⟨fault, fault⟩

/-- The content of a text up to its first break. The items of an array and the members of an
object are those that were begun; `finish` is the break after the last of them. -/
inductive Outline where
  | null
  | bool (value : Bool)
  | number (value : Except Fault Number)
  | string (value : Except Fault String)
  | array (items : List Outline) (finish : Option Break)
  | object (members : List (Except Fault String × Outline)) (finish : Option Break)
  | broken (place : Break)
deriving Inhabited

namespace Outline

/-- The greatest number of containers around a value that is read. -/
def depthLimit : Nat := 127

mutual

/-- Passes over a value, meeting only what breaks the text. -/
def skip : Outline → Except Fault Unit
  | .array items finish => do
    skipItems items
    skipEnd finish
  | .object members finish => do
    skipMembers members
    skipEnd finish
  | .broken place => .error place.skipping
  | _ => .ok ()

/-- `skip` for every item. -/
def skipItems : List Outline → Except Fault Unit
  | [] => .ok ()
  | item :: rest => do
    skip item
    skipItems rest

/-- `skip` for every member's value. -/
def skipMembers : List (Except Fault String × Outline) → Except Fault Unit
  | [] => .ok ()
  | (_, value) :: rest => do
    skip value
    skipMembers rest

/-- The break after the last item or member that is passed over. -/
def skipEnd : Option Break → Except Fault Unit
  | none => .ok ()
  | some place => .error place.skipping

end

/-- The break after the last item or member that is read. -/
def readEnd : Option Break → Except Fault Unit
  | none => .ok ()
  | some place => .error place.reading

/-- Refuses a container that stands inside too many others. -/
def enter (depth : Nat) : Except Fault Unit :=
  if depth < depthLimit then .ok () else .error .malformed

mutual

/-- Reads a value below `depth` containers. Objects keep every member, equally named ones too. -/
def read (depth : Nat) : Outline → Except Fault Json
  | .null => .ok .null
  | .bool value => .ok (.bool value)
  | .number value => value.map .number
  | .string value => value.map .string
  | .array items finish => do
    enter depth
    let values ← readItems (depth + 1) items
    readEnd finish
    return .array values
  | .object members finish => do
    enter depth
    let values ← readMembers (depth + 1) members
    readEnd finish
    return .object values
  | .broken place => .error place.reading

/-- `read` for every item. -/
def readItems (depth : Nat) : List Outline → Except Fault (List Json)
  | [] => .ok []
  | item :: rest => do
    let value ← read depth item
    let values ← readItems depth rest
    return value :: values

/-- `read` for every member, its name first. -/
def readMembers (depth : Nat) :
    List (Except Fault String × Outline) → Except Fault (List (String × Json))
  | [] => .ok []
  | (name, value) :: rest => do
    let name ← name
    let value ← read depth value
    let values ← readMembers depth rest
    return (name, value) :: values

end

/-! ### Expected shapes -/

/-- The fault where another shape was expected: that of the value itself if it is a scalar that
cannot be read. -/
def unexpected : Outline → Fault
  | .number (.error fault) => fault
  | .string (.error fault) => fault
  | .broken place => place.reading
  | _ => .mismatched

/-- Reads a string. -/
def text : Outline → Except Fault String
  | .string value => value
  | other => .error other.unexpected

/-- Reads an array, item by item. -/
def list {α : Type} (depth : Nat) (item : Outline → Except Fault α) :
    Outline → Except Fault (List α)
  | .array items finish => do
    enter depth
    let values ← items.mapM item
    readEnd finish
    return values
  | other => .error other.unexpected

/-- Reads an object as a map, member by member; of equally named members the last one counts. -/
def map {α : Type} (depth : Nat) (value : Outline → Except Fault α) :
    Outline → Except Fault (SortedMap String α)
  | .object members finish => do
    enter depth
    let entries ← members.mapM (fun member => do
      let name ← member.1
      let value ← value member.2
      return (name, value))
    readEnd finish
    return SortedMap.ofList entries
  | other => .error other.unexpected

/-- The fields of a record, each with its name, and the break after them. A record is written as
an object, or as an array of its fields in their order; more items than fields break the text. -/
def record (depth : Nat) (names : List String) :
    Outline → Except Fault (List (Except Fault String × Outline) × Option Break)
  | .object members finish => do
    enter depth
    return (members, finish)
  | .array items finish => do
    enter depth
    let fields := (names.map .ok).zip items
    if items.length > names.length then return (fields, some (.both .malformed))
    else return (fields, finish)
  | other => .error other.unexpected

/-- Reads the fields of a record one after the other into a value under construction. -/
def fold {α : Type} (step : α → String → Outline → Except Fault α) (start : α)
    (fields : List (Except Fault String × Outline) × Option Break) : Except Fault α := do
  let result ← fields.1.foldlM (fun value field => do
    let name ← field.1
    step value name field.2) start
  readEnd fields.2
  return result

/-- Puts a field into its place, which must be free. -/
def once {α : Type} (place : Option α) (value : Except Fault α) : Except Fault (Option α) :=
  match place with
  | some _ => .error .mismatched
  | none => value.map some

/-- The value of a field that must be there. -/
def required {α : Type} : Option α → Except Fault α
  | some value => .ok value
  | none => .error .mismatched

end Outline

mutual

/-- The outline of a value that is written out in full. -/
def outline : Json → Outline
  | .null => .null
  | .bool value => .bool value
  | .number value => .number (.ok value)
  | .string value => .string (.ok value)
  | .array items => .array (outlineItems items) none
  | .object members => .object (outlineMembers members) none

/-- `outline` of every item. -/
def outlineItems : List Json → List Outline
  | [] => []
  | item :: rest => outline item :: outlineItems rest

/-- `outline` of every member's value. -/
def outlineMembers : List (String × Json) → List (Except Fault String × Outline)
  | [] => []
  | (name, value) :: rest => (.ok name, outline value) :: outlineMembers rest

end

/-- The outline of a whole text and whether more than blanks follow its value. -/
structure Document where
  root : Outline
  trailing : Bool

/-- Takes a value of the expected shape from a text that holds nothing else. -/
def Document.take {α : Type} (document : Document) (shape : Outline → Except Fault α) :
    Except Fault α := do
  let value ← shape document.root
  if document.trailing then .error .malformed else return value

end StackSynth.Json
