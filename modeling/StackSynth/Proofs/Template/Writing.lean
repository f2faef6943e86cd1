/-
This file proves that the ways of writing a leaf are told apart by their text. A stack names the
outputs by which it exports after the text of what they show, so two values would be exported as one
if they were written alike. A function is written as an object with its name before its argument,
and both can be read back.
-/

import StackSynth.Proofs.Json.Quoting
import StackSynth.Template.Value

namespace StackSynth.Template.Value

/-- The values that leaves are written as. -/
inductive Primitive : Value → Prop where
  | ref (name : String) : Primitive (.ref name)
  | getAtt (resource attr : String) : Primitive (.getAtt resource attr)
  | importValue (exported : String) : Primitive (.importValue exported)
  /-- The part of the address of a nested stack that is its name. -/
  | addressPart (resource : String) : Primitive (.select 1 (.split "/" (.ref resource)))

theorem compact_function (name : String) (argument : Json) :
    (function name argument).compact =
      "\x7b" ++ (Json.quote name ++ (":" ++ (argument.compact ++ "\x7d"))) := by
  simp only [function, Json.compact, Json.compactMembers, String.append_assoc]

/-- A function is told by its name and its argument. -/
theorem function_injective {name other : String} {argument second : Json}
    (same : (function name argument).compact = (function other second).compact) :
    name = other ∧ argument.compact = second.compact := by
  rw [compact_function, compact_function, String.append_right_inj] at same
  obtain ⟨sameName, same⟩ := Json.quote_append_injective same
  rw [String.append_right_inj, String.append_left_inj] at same
  exact ⟨sameName, same⟩

theorem quote_injective {first second : String} (same : Json.quote first = Json.quote second) :
    first = second := by
  have sameBehind : Json.quote first ++ "" = Json.quote second ++ "" := by rw [same]
  exact (Json.quote_append_injective sameBehind).1

theorem compact_strings (first second : String) :
    (Json.strings [first, second]).compact =
      "[" ++ (Json.quote first ++ ("," ++ (Json.quote second ++ "]"))) := by
  simp only [Json.strings, List.map_cons, List.map_nil, Json.compact, Json.compactItems,
    String.append_assoc]

theorem ref_injective {first second : String}
    (same : (toJson (.ref first)).compact = (toJson (.ref second)).compact) : first = second := by
  rw [toJson, toJson] at same
  obtain ⟨_, sameName⟩ := function_injective same
  rw [Json.compact, Json.compact] at sameName
  exact quote_injective sameName

theorem addressPart_injective {first second : String}
    (same : (toJson (.select 1 (.split "/" (.ref first)))).compact =
      (toJson (.select 1 (.split "/" (.ref second)))).compact) : first = second := by
  rw [toJson, toJson] at same
  obtain ⟨_, sameSelect⟩ := function_injective same
  simp only [Json.compact, Json.compactItems, String.append_left_inj, String.append_right_inj]
    at sameSelect
  rw [toJson, toJson] at sameSelect
  obtain ⟨_, sameSplit⟩ := function_injective sameSelect
  simp only [Json.compact, Json.compactItems, String.append_left_inj, String.append_right_inj]
    at sameSplit
  exact ref_injective sameSplit

/-- Leaves that are written alike are the same value. -/
theorem Primitive.written_injective {first second : Value} (isFirst : Primitive first)
    (isSecond : Primitive second) (same : first.written = second.written) : first = second := by
  rw [written, written] at same
  cases isFirst with
  | ref name =>
    cases isSecond with
    | ref other => rw [ref_injective same]
    | getAtt | importValue | addressPart =>
      rw [toJson, toJson] at same
      exact absurd (function_injective same).1 (by decide)
  | getAtt resource attr =>
    cases isSecond with
    | getAtt other further =>
      rw [toJson, toJson] at same
      obtain ⟨_, sameNames⟩ := function_injective same
      rw [compact_strings, compact_strings, String.append_right_inj] at sameNames
      obtain ⟨rfl, sameBehind⟩ := Json.quote_append_injective sameNames
      rw [String.append_right_inj, String.append_left_inj] at sameBehind
      rw [quote_injective sameBehind]
    | ref | importValue | addressPart =>
      rw [toJson, toJson] at same
      exact absurd (function_injective same).1 (by decide)
  | importValue exported =>
    cases isSecond with
    | importValue other =>
      rw [toJson, toJson] at same
      obtain ⟨_, sameName⟩ := function_injective same
      rw [Json.compact, Json.compact] at sameName
      rw [quote_injective sameName]
    | ref | getAtt | addressPart =>
      rw [toJson, toJson] at same
      exact absurd (function_injective same).1 (by decide)
  | addressPart resource =>
    cases isSecond with
    | addressPart other => rw [addressPart_injective same]
    | ref | getAtt | importValue =>
      rw [toJson, toJson] at same
      exact absurd (function_injective same).1 (by decide)

end StackSynth.Template.Value
