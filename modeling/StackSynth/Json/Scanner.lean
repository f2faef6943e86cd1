/-
This file outlines JSON text. The scanner goes through the characters once and never looks back;
where the text stops being JSON it stops, and the outline ends in that break. Each step takes at
least one character, so twice their number bounds the steps.
-/

import StackSynth.Json.Literal

namespace StackSynth.Json

/-- Whether a character may stand between the parts of a text. -/
def isBlank (character : Char) : Bool :=
  character = ' ' || character = '\n' || character = '\t' || character = '\r'

/-- The characters behind leading blanks. -/
def skipBlanks (characters : List Char) : List Char := characters.dropWhile isBlank

/-- What a scan found, and the characters behind it unless it ran into a break. -/
abbrev Scanned (α : Type) := α × Option (List Char)

/-- A literal as an outline. -/
def scannedLiteral {α : Type} (outline : α → Outline) :
    Except Break (α × List Char) → Scanned Outline
  | .ok (value, rest) => (outline value, some rest)
  | .error place => (.broken place, none)

/-- A word as an outline. -/
def scannedWord (outline : Outline) : Except Break (List Char) → Scanned Outline
  | .ok rest => (outline, some rest)
  | .error place => (.broken place, none)

/-- The outline of a number. -/
def NumberLiteral.outline (literal : NumberLiteral) : Outline :=
  .number (match literal.value? with
    | some value => .ok value
    | none => .error .malformed)

mutual

/-- Outlines one value. -/
def scanValue : Nat → List Char → Scanned Outline
  | 0, _ => (.broken (.both .truncated), none)
  | fuel + 1, characters =>
    match skipBlanks characters with
    | [] => (.broken (.both .truncated), none)
    | character :: rest =>
      if character = 'n' then scannedWord .null (scanWord ['u', 'l', 'l'] rest)
      else if character = 't' then scannedWord (.bool true) (scanWord ['r', 'u', 'e'] rest)
      else if character = 'f' then
        scannedWord (.bool false) (scanWord ['a', 'l', 's', 'e'] rest)
      else if character = '"' then scannedLiteral .string (scanString rest)
      else if character = '-' || isDigit character then
        scannedLiteral NumberLiteral.outline (scanNumber (character :: rest))
      else if character = '[' then
        let (items, finish, rest) := scanItems fuel true rest
        (.array items finish, rest)
      else if character = '{' then
        let (members, finish, rest) := scanMembers fuel true rest
        (.object members finish, rest)
      else (.broken (.both .malformed), none)

/-- Outlines the items of an array behind its opening bracket, or behind an item. -/
def scanItems : Nat → Bool → List Char →
    List Outline × Option Break × Option (List Char)
  | 0, _, _ => ([], some (.both .truncated), none)
  | fuel + 1, isFirst, characters =>
    let item (characters : List Char) :=
      match scanValue fuel characters with
      | (value, none) => ([value], none, none)
      | (value, some rest) =>
        let (values, finish, rest) := scanItems fuel false rest
        (value :: values, finish, rest)
    match skipBlanks characters with
    | [] => ([], some (.both .truncated), none)
    | character :: rest =>
      if character = ']' then ([], none, some rest)
      else if isFirst then item (character :: rest)
      else if character = ',' then item rest
      else ([], some (.both .malformed), none)

/-- Outlines the members of an object behind its opening brace, or behind a member. -/
def scanMembers : Nat → Bool → List Char →
    List (Except Fault String × Outline) × Option Break × Option (List Char)
  | 0, _, _ => ([], some (.both .truncated), none)
  | fuel + 1, isFirst, characters =>
    let member (characters : List Char) :=
      match skipBlanks characters with
      | [] => ([], some (.both .truncated), none)
      | '"' :: rest =>
        match scanString rest with
        | .error place => ([], some place, none)
        | .ok (name, rest) =>
          match skipBlanks rest with
          | [] => ([(name, .broken (.both .truncated))], none, none)
          | ':' :: rest =>
            match scanValue fuel rest with
            | (value, none) => ([(name, value)], none, none)
            | (value, some rest) =>
              let (members, finish, rest) := scanMembers fuel false rest
              ((name, value) :: members, finish, rest)
          | _ => ([(name, .broken (.both .malformed))], none, none)
      | _ => ([], some (.both .malformed), none)
    match skipBlanks characters with
    | [] => ([], some (.both .truncated), none)
    | character :: rest =>
      if character = '}' then ([], none, some rest)
      else if isFirst then member (character :: rest)
      else if character = ',' then member rest
      else ([], some (.both .malformed), none)

end

/-- The outline of a text. -/
def Document.ofText (text : String) : Document :=
  let characters := text.toList
  match scanValue (2 * characters.length + 2) characters with
  | (root, none) => ⟨root, false⟩
  | (root, some rest) => ⟨root, !(skipBlanks rest).isEmpty⟩

/-- Reads a text that holds one value. -/
def parse (text : String) : Except Fault Json :=
  (Document.ofText text).take (Outline.read 0)

end StackSynth.Json
