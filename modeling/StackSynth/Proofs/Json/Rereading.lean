/-
This file proves that values without numbers are read back from the line in which they are written:
what is written of a value is outlined step by step as that value, whatever is written behind it.
-/

import StackSynth.Json.Scanner
import StackSynth.Proofs.Json.Quoting

namespace StackSynth.Json

mutual

/-- Whether no number stands in a value. -/
def Numberless : Json → Prop
  | .number _ => False
  | .array items => NumberlessItems items
  | .object members => NumberlessMembers members
  | _ => True

/-- `Numberless` for every item. -/
def NumberlessItems : List Json → Prop
  | [] => True
  | item :: rest => Numberless item ∧ NumberlessItems rest

/-- `Numberless` for every member's value. -/
def NumberlessMembers : List (String × Json) → Prop
  | [] => True
  | (_, value) :: rest => Numberless value ∧ NumberlessMembers rest

end

theorem numberlessItems_iff {items : List Json} :
    NumberlessItems items ↔ ∀ item ∈ items, item.Numberless := by
  induction items with
  | nil => exact iff_of_true trivial nofun
  | cons item rest inductionHypothesis =>
    rw [NumberlessItems, inductionHypothesis, List.forall_mem_cons]

theorem numberlessMembers_iff {members : List (String × Json)} :
    NumberlessMembers members ↔ ∀ member ∈ members, member.2.Numberless := by
  induction members with
  | nil => exact iff_of_true trivial nofun
  | cons member rest inductionHypothesis =>
    rw [NumberlessMembers, inductionHypothesis, List.forall_mem_cons]

theorem numberless_array {α : Type} {write : α → Json} {items : List α}
    (each : ∀ item ∈ items, (write item).Numberless) :
    (Json.array (items.map write)).Numberless :=
  numberlessItems_iff.mpr (List.forall_mem_map.mpr each)

theorem numberless_object {α : Type} {write : α → Json} {map : SortedMap String α}
    (each : ∀ entry ∈ map.entries, (write entry.2).Numberless) :
    (Json.object (map.mapValues write).entries).Numberless :=
  numberlessMembers_iff.mpr (List.forall_mem_map.mpr each)

/-- What is written of items behind another one. -/
def laterItems : List Json → List Char
  | [] => []
  | item :: rest => ',' :: (item.compact.toList ++ laterItems rest)

/-- A member as it is written. -/
def memberLetters (name : String) (value : Json) : List Char :=
  '"' :: (name.toList.flatMap escape ++ '"' :: ':' :: value.compact.toList)

/-- What is written of members behind another one. -/
def laterMembers : List (String × Json) → List Char
  | [] => []
  | (name, value) :: rest => ',' :: (memberLetters name value ++ laterMembers rest)

theorem compactItems_cons (item : Json) (rest : List Json) :
    (compactItems (item :: rest)).toList = item.compact.toList ++ laterItems rest := by
  induction rest generalizing item with
  | nil => rw [compactItems, laterItems, List.append_nil]
  | cons next others inductionHypothesis =>
    rw [compactItems, String.toList_append, String.toList_append, inductionHypothesis, laterItems]
    · simp
    · simp

theorem compactMembers_cons (name : String) (value : Json) (rest : List (String × Json)) :
    (compactMembers ((name, value) :: rest)).toList =
      memberLetters name value ++ laterMembers rest := by
  have quoted : (quote name ++ ":" ++ value.compact).toList = memberLetters name value := by
    simp [quote, memberLetters]
  induction rest generalizing name value with
  | nil => rw [compactMembers, laterMembers, List.append_nil, quoted]
  | cons next others inductionHypothesis =>
    obtain ⟨nextName, nextValue⟩ := next
    rw [compactMembers, String.toList_append, String.toList_append, quoted,
      inductionHypothesis nextName nextValue (by simp [quote, memberLetters]), laterMembers]
    · simp
    · simp

theorem length_memberLetters (name : String) (value : Json) :
    (memberLetters name value).length =
      (name.toList.flatMap escape).length + value.compact.toList.length + 3 := by
  simp [memberLetters]
  omega

theorem toList_compact_null : (compact .null).toList = ['n', 'u', 'l', 'l'] := by decide

theorem toList_compact_true : (compact (.bool true)).toList = ['t', 'r', 'u', 'e'] := by decide

theorem toList_compact_false : (compact (.bool false)).toList = ['f', 'a', 'l', 's', 'e'] := by
  decide

theorem toList_compact_array (items : List Json) :
    (compact (.array items)).toList = '[' :: ((compactItems items).toList ++ [']']) := by
  simp [compact]

theorem toList_compact_object (members : List (String × Json)) :
    (compact (.object members)).toList =
      '\x7b' :: ((compactMembers members).toList ++ ['\x7d']) := by
  simp [compact]

theorem toList_compact_string (text : String) :
    (compact (.string text)).toList = '"' :: (text.toList.flatMap escape ++ ['"']) := by
  simp [compact, quote]

/-- A value is not written as nothing, and begins with none of the characters that end items. -/
theorem exists_first (value : Json) (numberless : value.Numberless) :
    ∃ first rest, value.compact.toList = first :: rest ∧ isBlank first = false ∧ first ≠ ']' := by
  match value with
  | .null => exact ⟨'n', _, toList_compact_null, by decide, by decide⟩
  | .bool true => exact ⟨'t', _, toList_compact_true, by decide, by decide⟩
  | .bool false => exact ⟨'f', _, toList_compact_false, by decide, by decide⟩
  | .number _ => exact numberless.elim
  | .string text => exact ⟨'"', _, toList_compact_string text, by decide, by decide⟩
  | .array items => exact ⟨'[', _, toList_compact_array items, by decide, by decide⟩
  | .object members => exact ⟨'\x7b', _, toList_compact_object members, by decide, by decide⟩

theorem skipBlanks_cons {first : Char} {rest : List Char} (notBlank : isBlank first = false) :
    skipBlanks (first :: rest) = first :: rest := by
  rw [skipBlanks, List.dropWhile_cons_of_neg (by rw [notBlank]; exact Bool.false_ne_true)]

/-- One item is outlined, the first one or behind a comma. -/
theorem scanItems_item {item : Json} {items : List Outline} {fuel : Nat} {later behind : List Char}
    (numberless : item.Numberless)
    (scanned : scanValue fuel (item.compact.toList ++ later) = (outline item, some later))
    (scannedLater : scanItems fuel false later = (items, none, some behind)) :
    scanItems (fuel + 1) true (item.compact.toList ++ later) =
        (outline item :: items, none, some behind) ∧
      scanItems (fuel + 1) false (',' :: (item.compact.toList ++ later)) =
        (outline item :: items, none, some behind) := by
  constructor
  · obtain ⟨first, others, letters, notBlank, notEnd⟩ := exists_first item numberless
    rw [letters, List.cons_append] at scanned ⊢
    rw [scanItems, skipBlanks_cons notBlank]
    simp only [if_neg notEnd, if_true, scanned, scannedLater]
  · rw [scanItems, skipBlanks_cons (by decide)]
    simp only [if_neg (by decide : ¬ ',' = ']'), Bool.false_eq_true, if_false, if_true, scanned,
      scannedLater]

/-- One member is outlined, the first one or behind a comma. -/
theorem scanMembers_member {name : String} {value : Json}
    {members : List (Except Fault String × Outline)} {fuel : Nat} {later behind : List Char}
    (scanned : scanValue fuel (value.compact.toList ++ later) = (outline value, some later))
    (scannedLater : scanMembers fuel false later = (members, none, some behind)) :
    scanMembers (fuel + 1) true (memberLetters name value ++ later) =
        ((.ok name, outline value) :: members, none, some behind) ∧
      scanMembers (fuel + 1) false (',' :: (memberLetters name value ++ later)) =
        ((.ok name, outline value) :: members, none, some behind) := by
  have opened : skipBlanks ('"' :: (name.toList.flatMap escape ++
      '"' :: ':' :: (value.compact.toList ++ later))) = _ := skipBlanks_cons (by decide)
  have colon : skipBlanks (':' :: (value.compact.toList ++ later)) = _ :=
    skipBlanks_cons (by decide)
  simp only [memberLetters, List.cons_append, List.append_assoc]
  constructor
  · rw [scanMembers, opened]
    simp only [if_neg (by decide : ¬ '"' = '\x7d'), if_true, opened, scanString_quoted, colon,
      scanned, scannedLater]
  · rw [scanMembers, skipBlanks_cons (by decide)]
    simp only [if_neg (by decide : ¬ ',' = '\x7d'), Bool.false_eq_true, if_false, if_true, opened,
      scanString_quoted, colon, scanned, scannedLater]

/-- Outlining a value takes at least one step. -/
theorem exists_less {value : Json} (numberless : value.Numberless) {fuel : Nat}
    (enough : 2 * value.compact.toList.length ≤ fuel) : ∃ less, fuel = less + 1 := by
  obtain ⟨first, rest, letters, _, _⟩ := exists_first value numberless
  rw [letters, List.length_cons] at enough
  exact Nat.exists_eq_add_of_le' (by omega)

mutual

/-- A value is outlined from the line in which it is written, whatever is written behind it. -/
theorem scanValue_compact (value : Json) : value.Numberless → ∀ {fuel : Nat},
    2 * value.compact.toList.length ≤ fuel → ∀ behind : List Char,
      scanValue fuel (value.compact.toList ++ behind) = (outline value, some behind) := by
  match value with
  | .null =>
    intro numberless fuel enough behind
    obtain ⟨fuel, rfl⟩ := exists_less numberless enough
    rw [toList_compact_null]
    rfl
  | .bool true =>
    intro numberless fuel enough behind
    obtain ⟨fuel, rfl⟩ := exists_less numberless enough
    rw [toList_compact_true]
    rfl
  | .bool false =>
    intro numberless fuel enough behind
    obtain ⟨fuel, rfl⟩ := exists_less numberless enough
    rw [toList_compact_false]
    rfl
  | .number _ => exact fun numberless => numberless.elim
  | .string text =>
    intro numberless fuel enough behind
    obtain ⟨fuel, rfl⟩ := exists_less numberless enough
    rw [toList_compact_string, List.cons_append, List.append_assoc]
    show scannedLiteral Outline.string (scanString _) = _
    rw [List.singleton_append, scanString_quoted]
    rfl
  | .array items =>
    intro numberless fuel enough behind
    obtain ⟨fuel, rfl⟩ := exists_less numberless enough
    rw [toList_compact_array, List.length_cons, List.length_append, List.length_singleton] at enough
    rw [toList_compact_array, List.cons_append, List.append_assoc, List.singleton_append]
    have scanned : scanItems fuel true ((compactItems items).toList ++ ']' :: behind) =
        (outlineItems items, none, some behind) := by
      obtain ⟨fuel, rfl⟩ : ∃ less, fuel = less + 1 := Nat.exists_eq_add_of_le' (by omega)
      match items with
      | [] => rfl
      | item :: rest =>
        rw [compactItems_cons, List.length_append] at enough
        rw [compactItems_cons, List.append_assoc]
        exact (scanItems_item numberless.1 (scanValue_compact item numberless.1 (by omega) _)
          (scanItems_later rest numberless.2 (by omega) behind)).1
    show (let (items, finish, rest) := scanItems fuel true _
      (Outline.array items finish, rest)) = _
    rw [scanned]
    rfl
  | .object members =>
    intro numberless fuel enough behind
    obtain ⟨fuel, rfl⟩ := exists_less numberless enough
    rw [toList_compact_object, List.length_cons, List.length_append,
      List.length_singleton] at enough
    rw [toList_compact_object, List.cons_append, List.append_assoc, List.singleton_append]
    have scanned : scanMembers fuel true ((compactMembers members).toList ++ '\x7d' :: behind) =
        (outlineMembers members, none, some behind) := by
      obtain ⟨fuel, rfl⟩ : ∃ less, fuel = less + 1 := Nat.exists_eq_add_of_le' (by omega)
      match members with
      | [] => rfl
      | (name, value) :: rest =>
        rw [compactMembers_cons, List.length_append, length_memberLetters] at enough
        rw [compactMembers_cons, List.append_assoc]
        exact (scanMembers_member (scanValue_compact value numberless.1 (by omega) _)
          (scanMembers_later rest numberless.2 (by omega) behind)).1
    show (let (members, finish, rest) := scanMembers fuel true _
      (Outline.object members finish, rest)) = _
    rw [scanned]
    rfl

/-- Items are outlined behind another one. -/
theorem scanItems_later (items : List Json) (numberless : NumberlessItems items) {fuel : Nat}
    (enough : 2 * (laterItems items).length + 1 ≤ fuel) (behind : List Char) :
    scanItems fuel false (laterItems items ++ ']' :: behind) =
      (outlineItems items, none, some behind) := by
  obtain ⟨fuel, rfl⟩ : ∃ less, fuel = less + 1 := Nat.exists_eq_add_of_le' (by omega)
  match items with
  | [] => rfl
  | item :: rest =>
    rw [laterItems, List.length_cons, List.length_append] at enough
    rw [laterItems, List.cons_append, List.append_assoc]
    exact (scanItems_item numberless.1 (scanValue_compact item numberless.1 (by omega) _)
      (scanItems_later rest numberless.2 (by omega) behind)).2

/-- Members are outlined behind another one. -/
theorem scanMembers_later (members : List (String × Json)) (numberless : NumberlessMembers members)
    {fuel : Nat} (enough : 2 * (laterMembers members).length + 1 ≤ fuel) (behind : List Char) :
    scanMembers fuel false (laterMembers members ++ '\x7d' :: behind) =
      (outlineMembers members, none, some behind) := by
  obtain ⟨fuel, rfl⟩ : ∃ less, fuel = less + 1 := Nat.exists_eq_add_of_le' (by omega)
  match members with
  | [] => rfl
  | (name, value) :: rest =>
    rw [laterMembers, List.length_cons, List.length_append, length_memberLetters] at enough
    rw [laterMembers, List.cons_append, List.append_assoc]
    exact (scanMembers_member (scanValue_compact value numberless.1 (by omega) _)
      (scanMembers_later rest numberless.2 (by omega) behind)).2

end

/-- A line in which a value without numbers is written holds that value and nothing else. -/
theorem ofText_compact {value : Json} (numberless : value.Numberless) :
    Document.ofText value.compact = ⟨outline value, false⟩ := by
  have scanned := scanValue_compact value numberless
    (Nat.le_add_right (2 * value.compact.toList.length) 2) []
  rw [List.append_nil] at scanned
  rw [Document.ofText, scanned]
  rfl

/-- If it is not nested too deep, it is read back from that line. -/
theorem parse_compact {value : Json} (numberless : value.Numberless)
    (readable : (outline value).read 0 = .ok value) : parse value.compact = .ok value := by
  rw [parse, ofText_compact numberless, Document.take, readable]
  rfl

end StackSynth.Json
