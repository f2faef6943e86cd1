/-
This file says what shapes take from the outline of a value. Reading a value takes all of its
outline, so a text that holds the value is outlined as if the value had been written out; and lists
and maps are taken from the outlines of arrays and objects that were written for them.
-/

import StackSynth.Json.Scanner
import StackSynth.Proofs.Json.Canonical
import StackSynth.Proofs.Outcome

namespace StackSynth.Json

open Outcome

/-! ### Outlines that are read -/

theorem eq_none_of_readEnd {finish : Option Break} (done : Outline.readEnd finish = .ok ()) :
    finish = none := by
  cases finish with
  | none => rfl
  | some place => cases done

mutual

/-- An outline from which a value is read is that of the value. -/
theorem eq_outline_of_read {depth : Nat} {value : Json} (found : Outline)
    (done : found.read depth = .ok value) : found = outline value := by
  match found with
  | .null | .bool _ =>
    cases done
    rfl
  | .number (.ok _) | .string (.ok _) =>
    cases done
    rfl
  | .number (.error _) | .string (.error _) | .broken _ => cases done
  | .array items finish =>
    obtain ⟨_, _, done⟩ := bind_eq_ok.mp done
    obtain ⟨values, doneItems, done⟩ := bind_eq_ok.mp done
    obtain ⟨_, ended, same⟩ := bind_eq_ok.mp done
    cases same
    rw [outline, eq_none_of_readEnd ended, eq_outlineItems_of_read items doneItems]
  | .object members finish =>
    obtain ⟨_, _, done⟩ := bind_eq_ok.mp done
    obtain ⟨values, doneMembers, done⟩ := bind_eq_ok.mp done
    obtain ⟨_, ended, same⟩ := bind_eq_ok.mp done
    cases same
    rw [outline, eq_none_of_readEnd ended, eq_outlineMembers_of_read members doneMembers]

theorem eq_outlineItems_of_read {depth : Nat} {values : List Json} (items : List Outline)
    (done : Outline.readItems depth items = .ok values) : items = outlineItems values := by
  match items with
  | [] =>
    cases done
    rfl
  | item :: rest =>
    obtain ⟨value, doneItem, done⟩ := bind_eq_ok.mp done
    obtain ⟨others, doneRest, same⟩ := bind_eq_ok.mp done
    cases same
    rw [outlineItems, eq_outline_of_read item doneItem, eq_outlineItems_of_read rest doneRest]

theorem eq_outlineMembers_of_read {depth : Nat} {values : List (String × Json)}
    (members : List (Except Fault String × Outline))
    (done : Outline.readMembers depth members = .ok values) :
    members = outlineMembers values := by
  match members with
  | [] =>
    cases done
    rfl
  | (name, member) :: rest =>
    obtain ⟨text, isText, done⟩ := bind_eq_ok.mp done
    obtain ⟨value, doneMember, done⟩ := bind_eq_ok.mp done
    obtain ⟨others, doneRest, same⟩ := bind_eq_ok.mp done
    cases same
    rw [outlineMembers, isText, eq_outline_of_read member doneMember,
      eq_outlineMembers_of_read rest doneRest]

end

/-- A text that holds a value is outlined as the value, which is not nested too deep. -/
theorem ofText_of_parse {text : String} {value : Json} (parsed : parse text = .ok value) :
    Document.ofText text = ⟨outline value, false⟩ ∧ (outline value).read 0 = .ok value := by
  rw [parse] at parsed
  generalize Document.ofText text = document at parsed ⊢
  obtain ⟨root, trailing⟩ := document
  obtain ⟨result, done, same⟩ := bind_eq_ok.mp parsed
  cases trailing with
  | true => cases same
  | false =>
    cases same
    cases eq_outline_of_read root done
    exact ⟨rfl, done⟩

/-! ### Outlines that are taken apart -/

theorem outlineItems_eq_map (items : List Json) : outlineItems items = items.map outline := by
  induction items with
  | nil => rfl
  | cons item rest inductionHypothesis =>
    rw [outlineItems, List.map_cons, inductionHypothesis]

theorem outlineMembers_eq_map (members : List (String × Json)) :
    outlineMembers members = members.map fun member => (.ok member.1, outline member.2) := by
  induction members with
  | nil => rfl
  | cons member rest inductionHypothesis =>
    rw [outlineMembers, List.map_cons, inductionHypothesis]

/-- Every item of an array that is read is read. -/
theorem read_item_of_readItems {depth : Nat} {items : List Json} :
    Outline.readItems depth (outlineItems items) = .ok items →
      ∀ item ∈ items, (outline item).read depth = .ok item := by
  induction items with
  | nil => exact fun _ _ never => nomatch never
  | cons item rest inductionHypothesis =>
    intro done other member
    obtain ⟨_, doneItem, done⟩ := bind_eq_ok.mp done
    obtain ⟨_, doneRest, same⟩ := bind_eq_ok.mp done
    cases same
    rcases List.mem_cons.mp member with rfl | later
    · exact doneItem
    · exact inductionHypothesis doneRest other later

theorem mapM_map_eq_ok {α β : Type} {write : α → β} {item : β → Except Fault α} {values : List α}
    (each : ∀ value ∈ values, item (write value) = .ok value) :
    (values.map write).mapM item = .ok values := by
  induction values with
  | nil => rfl
  | cons value rest inductionHypothesis =>
    rw [List.map_cons, List.mapM_cons, each value List.mem_cons_self,
      inductionHypothesis fun other member => each other (List.mem_cons_of_mem _ member)]
    rfl

section Shapes

variable {α : Type} {depth : Nat} {shape : Outline → Except Fault α}
  (entered : Outline.enter depth = .ok ())
include entered

/-- A list is taken from the array of its items. -/
theorem list_outline (write : α → Json) {values : List α}
    (each : ∀ value ∈ values, shape (outline (write value)) = .ok value) :
    (outline (.array (values.map write))).list depth shape = .ok values := by
  rw [outline, outlineItems_eq_map, List.map_map]
  refine bind_eq_ok.mpr ⟨(), entered, bind_eq_ok.mpr ⟨values, ?_, rfl⟩⟩
  exact mapM_map_eq_ok each

/-- A map is taken from the object of its entries. -/
theorem map_outline (write : α → Json) {map : SortedMap String α}
    (each : ∀ entry ∈ map.entries, shape (outline (write entry.2)) = .ok entry.2) :
    (outline (.object (map.mapValues write).entries)).map depth shape = .ok map := by
  rw [outline, outlineMembers_eq_map, SortedMap.mapValues, List.map_map]
  refine bind_eq_ok.mpr ⟨(), entered, bind_eq_ok.mpr ⟨map.entries, ?_, bind_eq_ok.mpr ⟨(), rfl, ?_⟩⟩⟩
  · refine mapM_map_eq_ok fun entry member => ?_
    exact bind_eq_ok.mpr ⟨entry.1, rfl, bind_eq_ok.mpr ⟨entry.2, each entry member, rfl⟩⟩
  · exact congrArg Except.ok (SortedMap.ofList_entries map)

end Shapes

/-- A record is taken from the object of its fields, one after the other. -/
theorem fold_outline {α : Type} {step : α → String → Outline → Except Fault α} {start : α}
    {members : List (String × Json)} :
    Outline.fold step start (outlineMembers members, none) =
      members.foldlM (fun value member => step value member.1 (outline member.2)) start := by
  rw [Outline.fold, outlineMembers_eq_map, List.foldlM_map]
  exact bind_pure _

end StackSynth.Json
