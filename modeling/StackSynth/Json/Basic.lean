/-
This file holds JSON values. Whole numbers that fit 64 bits are kept apart from all other
numbers, because they are written differently, and the members of an object keep their order.
A value is canonical when every object in it is sorted by name and names no member twice.
-/

import StackSynth.SortedMap
import StackSynth.Decimal.Binary64

namespace StackSynth

/-- A number: whole between `-2 ^ 63` and `2 ^ 64 - 1`, otherwise binary floating point. -/
inductive Json.Number where
  | whole (value : Int)
  | real (value : Binary64)
deriving DecidableEq, Repr

/-- A JSON value. -/
inductive Json where
  | null
  | bool (value : Bool)
  | number (value : Json.Number)
  | string (value : String)
  | array (items : List Json)
  | object (members : List (String × Json))
deriving Repr, Inhabited, BEq

namespace Json

/-- A whole number. -/
def natural (value : Nat) : Json := .number (.whole value)

/-- An array of strings. -/
def strings (items : List String) : Json := .array (items.map .string)

mutual

/-- The value with the members of every object sorted by name, the last of equally named ones
kept. -/
def canonical : Json → Json
  | .array items => .array (canonicalItems items)
  | .object members => .object (SortedMap.ofList (canonicalMembers members)).entries
  | scalar => scalar

/-- `canonical` of every item. -/
def canonicalItems : List Json → List Json
  | [] => []
  | item :: rest => canonical item :: canonicalItems rest

/-- `canonical` of every member's value. -/
def canonicalMembers : List (String × Json) → List (String × Json)
  | [] => []
  | (name, value) :: rest => (name, canonical value) :: canonicalMembers rest

end

end Json

end StackSynth
