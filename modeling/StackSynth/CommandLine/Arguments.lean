/-
This file reads the arguments of the command line. An option stands before or behind the words it
belongs to, in its long form or in its short one; short flags may be run together, and what an
option takes may follow it directly or behind an equals sign. Behind a double hyphen there are
only words.
-/

import StackSynth.Fields

namespace StackSynth.CommandLine

/-- What is asked for. -/
inductive Command where
  /-- Writes the assembly of a definition. -/
  | synthesize (definition : String) (directory : Option String) (compact : Bool)
  /-- Shows the order of deployment. -/
  | graph (definition : String)
  /-- Checks a definition without writing anything. -/
  | validate (definition : String)
deriving DecidableEq, Repr

/-- What is asked for, and how the answer is to look. -/
structure Arguments where
  command : Command
  verbose : Bool
  json : Bool
deriving DecidableEq, Repr

/-- Why arguments are refused. -/
inductive UsageError where
  | unknownOption (text : String)
  | missingValue (option : String)
  | unexpectedValue (option : String)
  | repeatedOption (option : String)
  | unknownFormat (text : String)
  | unknownCommand (text : String)
  | missingCommand
  | missingDefinition
  | unexpectedWord (text : String)
  | misplacedOption (option : String)
deriving DecidableEq, Repr

/-- The wording of an error. -/
def UsageError.message : UsageError → String
  | .unknownOption text => "unexpected argument '" ++ text ++ "' found"
  | .missingValue option => "a value is required for '" ++ option ++ "' but none was supplied"
  | .unexpectedValue option => "no value is expected for '" ++ option ++ "'"
  | .repeatedOption option => "the argument '" ++ option ++ "' cannot be used multiple times"
  | .unknownFormat text => "invalid value '" ++ text ++ "' for '--format <FORMAT>'"
  | .unknownCommand text => "unrecognized subcommand '" ++ text ++ "'"
  | .missingCommand => "a subcommand is required"
  | .missingDefinition => "the required argument <DEFINITION> was not provided"
  | .unexpectedWord text => "unexpected argument '" ++ text ++ "' found"
  | .misplacedOption option => "unexpected argument '" ++ option ++ "' found"

/-- The options. -/
inductive Flag where
  | verbose
  | format
  | output
  | compact
deriving DecidableEq, Repr

namespace Flag

/-- All options. -/
def all : List Flag := [.verbose, .format, .output, .compact]

/-- The long form. -/
def long : Flag → String
  | .verbose => "--verbose"
  | .format => "--format"
  | .output => "--output"
  | .compact => "--compact"

/-- The letter of the short form. -/
def short? : Flag → Option Char
  | .verbose => some 'v'
  | .output => some 'o'
  | _ => none

/-- Whether the option takes a value. -/
def takesValue : Flag → Bool
  | .format => true
  | .output => true
  | _ => false

/-- The option of a long form. -/
def ofLong? (text : String) : Option Flag := all.find? (fun flag => flag.long = text)

/-- The option of a letter. -/
def ofShort? (letter : Char) : Option Flag := all.find? (fun flag => flag.short? = some letter)

end Flag

/-- The words and the options among arguments, in their order. -/
structure Parts where
  words : List String
  /-- The options, each with its value if it takes one. -/
  options : List (Flag × String)

/-- The parts with one more word in front. -/
def Parts.word (text : String) (parts : Parts) : Parts :=
  { parts with words := text :: parts.words }

/-- The parts with one more option in front. -/
def Parts.option (flag : Flag) (value : String) (parts : Parts) : Parts :=
  { parts with options := (flag, value) :: parts.options }

/-- Takes short options apart that are run together. Gives the flags without values and, at the
end, an option that takes a value with the letters behind it. -/
def splitShort : List Char → Except UsageError (List Flag × Option (Flag × List Char))
  | [] => .ok ([], none)
  | letter :: rest =>
    match Flag.ofShort? letter with
    | none => .error (.unknownOption (String.ofList ['-', letter]))
    | some flag =>
      if flag.takesValue then .ok ([], some (flag, rest))
      else do
        let (flags, last) ← splitShort rest
        return (flag :: flags, last)

/-- A value behind its option, without the equals sign that may lead it. -/
def withoutEquals : List Char → List Char
  | '=' :: rest => rest
  | characters => characters

/-- Takes arguments apart. -/
def parts : List String → Except UsageError Parts
  | [] => .ok ⟨[], []⟩
  | "--" :: rest => .ok ⟨rest, []⟩
  | argument :: rest =>
    match argument.toList with
    | '-' :: '-' :: _ =>
      let name := String.ofList (argument.toList.takeWhile (· ≠ '='))
      let given := argument.toList.dropWhile (· ≠ '=')
      match Flag.ofLong? name with
      | none => .error (.unknownOption name)
      | some flag =>
        if !flag.takesValue then
          if given.isEmpty then (parts rest).map (Parts.option flag "")
          else .error (.unexpectedValue name)
        else if !given.isEmpty then
          (parts rest).map (Parts.option flag (String.ofList (withoutEquals given)))
        else
          match rest with
          | [] => .error (.missingValue name)
          | value :: rest => (parts rest).map (Parts.option flag value)
    | '-' :: letter :: letters =>
      match splitShort (letter :: letters) with
      | .error error => .error error
      | .ok (flags, last) =>
        let flagged (parts : Parts) : Parts :=
          { parts with options := flags.map (·, "") ++ parts.options }
        match last with
        | none => (parts rest).map flagged
        | some (flag, []) =>
          match rest with
          | [] => .error (.missingValue flag.long)
          | value :: rest => (parts rest).map (fun parts => flagged (parts.option flag value))
        | some (flag, value) =>
          (parts rest).map (fun parts =>
            flagged (parts.option flag (String.ofList (withoutEquals value))))
    | _ => (parts rest).map (Parts.word argument)

/-- The value of an option that may be given once. -/
def Parts.value? (parts : Parts) (flag : Flag) : Except UsageError (Option String) :=
  match parts.options.filter (fun option => option.1 = flag) with
  | [] => .ok none
  | [(_, value)] => .ok (some value)
  | _ => .error (.repeatedOption flag.long)

/-- Whether the answer is to be JSON. -/
def jsonFormat : Option String → Except UsageError Bool
  | none => .ok false
  | some "text" => .ok false
  | some "json" => .ok true
  | some other => .error (.unknownFormat other)

/-- The command of a name for a definition. Only synthesis has options of its own. -/
def commandOf (name definition : String) (directory : Option String) (compact : Bool) :
    Except UsageError Command :=
  if name = "synth" then .ok (.synthesize definition directory compact)
  else if directory.isSome then .error (.misplacedOption Flag.output.long)
  else if compact then .error (.misplacedOption Flag.compact.long)
  else if name = "graph" then .ok (.graph definition)
  else if name = "validate" then .ok (.validate definition)
  else .error (.unknownCommand name)

/-- The meaning of arguments. -/
def Arguments.ofList (arguments : List String) : Except UsageError Arguments := do
  let parts ← parts arguments
  let verbose := (← parts.value? .verbose).isSome
  let json ← jsonFormat (← parts.value? .format)
  let directory ← parts.value? .output
  let compact := (← parts.value? .compact).isSome
  match parts.words with
  | [] => throw .missingCommand
  | [_] => throw .missingDefinition
  | [name, definition] => return ⟨← commandOf name definition directory compact, verbose, json⟩
  | _ :: _ :: other :: _ => throw (.unexpectedWord other)

end StackSynth.CommandLine
