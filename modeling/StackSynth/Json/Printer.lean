/-
This file writes JSON values: in one line without blanks, or indented by two blanks a level with
one item or member on a line. Empty arrays and objects are written closed in both forms.
-/

import StackSynth.Json.Basic
import StackSynth.Decimal.Shortest

namespace StackSynth.Json

/-! ### Scalars -/

/-- The four hexadecimal digits of a control character. -/
def controlDigits (code : Nat) : List Char :=
  ['0', '0', (Nat.toDigits 16 (code / 16)).headD '0', (Nat.toDigits 16 (code % 16)).headD '0']

/-- A character as it stands in a quoted string. Quotes, backslashes and control characters are
escaped, the latter by name where they have one. -/
def escape (character : Char) : List Char :=
  if character = '"' then ['\\', '"']
  else if character = '\\' then ['\\', '\\']
  else if character = '\x08' then ['\\', 'b']
  else if character = '\x0c' then ['\\', 'f']
  else if character = '\n' then ['\\', 'n']
  else if character = '\r' then ['\\', 'r']
  else if character = '\t' then ['\\', 't']
  else if character.toNat < 0x20 then '\\' :: 'u' :: controlDigits character.toNat
  else [character]

/-- The quoted form of a string. -/
def quote (text : String) : String :=
  String.ofList ('"' :: text.toList.flatMap escape ++ ['"'])

/-- Numbers are positional from a hundred-thousandth up to below ten to the sixteenth, whole ones
end in `.0`, and exponents carry a sign. -/
def numberLayout : Binary64.Layout where
  leastPositional := -5
  greatestPositional := 15
  wholeSuffix := ".0"
  exponentMark := "e"
  exponentPlus := "+"

/-- The text of a number. -/
def Number.text : Number → String
  | .whole value => toString value
  | .real value => value.render numberLayout

/-! ### One line -/

mutual

/-- The text without any blank. -/
def compact : Json → String
  | .null => "null"
  | .bool true => "true"
  | .bool false => "false"
  | .number value => value.text
  | .string value => quote value
  | .array items => "[" ++ compactItems items ++ "]"
  | .object members => "\x7b" ++ compactMembers members ++ "\x7d"

/-- Items with a comma between them. -/
def compactItems : List Json → String
  | [] => ""
  | [item] => compact item
  | item :: rest => compact item ++ "," ++ compactItems rest

/-- Members with a comma between them. -/
def compactMembers : List (String × Json) → String
  | [] => ""
  | [(name, value)] => quote name ++ ":" ++ compact value
  | (name, value) :: rest => quote name ++ ":" ++ compact value ++ "," ++ compactMembers rest

end

/-! ### Indented -/

/-- A line break and the blanks of a level. -/
def lineBreak (level : Nat) : String := String.ofList ('\n' :: List.replicate (2 * level) ' ')

mutual

/-- The text whose inner lines are indented below `level`. -/
def prettyAt (level : Nat) : Json → String
  | .array [] => "[]"
  | .array items => "[" ++ prettyItems (level + 1) items ++ lineBreak level ++ "]"
  | .object [] => "\x7b\x7d"
  | .object members =>
    "\x7b" ++ prettyMembers (level + 1) members ++ lineBreak level ++ "\x7d"
  | .null => "null"
  | .bool true => "true"
  | .bool false => "false"
  | .number value => value.text
  | .string value => quote value

/-- Items, each on a line of its own. -/
def prettyItems (level : Nat) : List Json → String
  | [] => ""
  | [item] => lineBreak level ++ prettyAt level item
  | item :: rest => lineBreak level ++ prettyAt level item ++ "," ++ prettyItems level rest

/-- Members, each on a line of its own. -/
def prettyMembers (level : Nat) : List (String × Json) → String
  | [] => ""
  | [(name, value)] => lineBreak level ++ quote name ++ ": " ++ prettyAt level value
  | (name, value) :: rest =>
    lineBreak level ++ quote name ++ ": " ++ prettyAt level value ++ ","
      ++ prettyMembers level rest

end

/-- The indented text. -/
def pretty (value : Json) : String := prettyAt 0 value

/-- The text, indented or in one line. -/
def render (indented : Bool) (value : Json) : String :=
  if indented then value.pretty else value.compact

end StackSynth.Json
