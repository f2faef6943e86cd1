/-
This file says which values are canonical: those that sorting leaves as they are. Sorting a value
makes it canonical, so sorting it again changes nothing.
-/

import StackSynth.Json.Basic

namespace StackSynth

section SortedMap

variable {κ ν : Type} [Ord κ] [Std.TransOrd κ] [Std.LawfulEqOrd κ]

/-- A map is made of its own entries. -/
theorem SortedMap.ofList_entries (map : SortedMap κ ν) : ofList map.entries = map := by
  refine ext_get? fun key => ?_
  cases found : (ofList map.entries).get? key with
  | some value => exact (mem_entries.mp (mem_of_get?_ofList found)).symm
  | none =>
    cases there : map.get? key with
    | none => rfl
    | some value =>
      obtain ⟨other, known⟩ := contains_iff.mp (contains_ofList.mpr ⟨value, mem_entries.mpr there⟩)
      rw [found] at known
      cases known

end SortedMap

namespace Json

/-- A value with sorted objects that name no member twice. -/
def IsCanonical (value : Json) : Prop := value.canonical = value

theorem canonicalItems_eq {items : List Json} (canonical : ∀ item ∈ items, item.IsCanonical) :
    canonicalItems items = items := by
  induction items with
  | nil => rfl
  | cons item rest inductionHypothesis =>
    rw [canonicalItems, canonical item List.mem_cons_self,
      inductionHypothesis fun other member => canonical other (List.mem_cons_of_mem _ member)]

theorem canonicalMembers_eq {members : List (String × Json)}
    (canonical : ∀ member ∈ members, member.2.IsCanonical) :
    canonicalMembers members = members := by
  induction members with
  | nil => rfl
  | cons member rest inductionHypothesis =>
    obtain ⟨name, value⟩ := member
    rw [canonicalMembers, canonical (name, value) List.mem_cons_self,
      inductionHypothesis fun other member => canonical other (List.mem_cons_of_mem _ member)]

/-- A sorted object of canonical values is canonical. -/
theorem isCanonical_object {map : SortedMap String Json}
    (canonical : ∀ member ∈ map.entries, member.2.IsCanonical) :
    (Json.object map.entries).IsCanonical := by
  rw [IsCanonical, Json.canonical, canonicalMembers_eq canonical, SortedMap.ofList_entries]

mutual

/-- Sorting makes a value canonical. -/
theorem isCanonical_canonical (value : Json) : value.canonical.IsCanonical := by
  match value with
  | .null | .bool _ | .number _ | .string _ => exact rfl
  | .array items =>
    rw [Json.canonical, IsCanonical, Json.canonical]
    exact congrArg Json.array (canonicalItems_eq (isCanonical_canonicalItems items))
  | .object members =>
    rw [Json.canonical]
    refine isCanonical_object fun member listed => ?_
    exact isCanonical_canonicalMembers members member
      (SortedMap.mem_of_get?_ofList (SortedMap.mem_entries.mp listed))

theorem isCanonical_canonicalItems (items : List Json) :
    ∀ item ∈ canonicalItems items, item.IsCanonical := by
  match items with
  | [] => exact nofun
  | item :: rest =>
    intro other member
    rcases List.mem_cons.mp member with rfl | later
    · exact isCanonical_canonical item
    · exact isCanonical_canonicalItems rest other later

theorem isCanonical_canonicalMembers (members : List (String × Json)) :
    ∀ member ∈ canonicalMembers members, member.2.IsCanonical := by
  match members with
  | [] => exact nofun
  | (name, value) :: rest =>
    intro other member
    rcases List.mem_cons.mp member with rfl | later
    · exact isCanonical_canonical value
    · exact isCanonical_canonicalMembers rest other later

end

end Json

end StackSynth
