/-
This file proves what assignments leave of a list of members: every name once, at the place where it
was first given.
-/

import Mathlib.Data.List.Nodup
import StackSynth.Fields
import StackSynth.SortedMap

namespace StackSynth.Fields

variable {ν μ : Type} {name : String} {value : ν} {fields first second : List (String × ν)}

theorem has_iff : has name fields = true ↔ name ∈ names fields := by
  induction fields with
  | nil => simp [has, get?, names]
  | cons field rest inductionHypothesis =>
    rw [has] at inductionHypothesis ⊢
    rw [get?, names, List.map_cons, List.mem_cons, ← names]
    by_cases atHead : field.1 = name
    · simp [atHead]
    · rw [if_neg atHead, inductionHypothesis]
      exact ⟨.inr, (·.resolve_left (Ne.symm atHead))⟩

theorem has_eq_false_iff : has name fields = false ↔ name ∉ names fields := by
  rw [← has_iff, Bool.not_eq_true]

theorem mem_of_get? (found : get? name fields = some value) : (name, value) ∈ fields := by
  induction fields with
  | nil => cases found
  | cons field rest inductionHypothesis =>
    rw [get?] at found
    split at found
    · rename_i atHead
      cases found
      exact atHead ▸ List.mem_cons_self
    · exact List.mem_cons_of_mem _ (inductionHypothesis found)

theorem get?_of_mem (once : (names fields).Nodup) (member : (name, value) ∈ fields) :
    get? name fields = some value := by
  induction fields with
  | nil => cases member
  | cons field rest inductionHypothesis =>
    obtain ⟨isNew, onceLater⟩ := List.nodup_cons.mp once
    rw [get?]
    rcases List.mem_cons.mp member with rfl | later
    · exact if_pos rfl
    · have notHere : field.1 ≠ name := fun here => isNew (List.mem_map.mpr ⟨_, later, here.symm⟩)
      rw [if_neg notHere, inductionHypothesis onceLater later]

/-- A map is looked up in its entries. -/
theorem get?_entries {ν : Type} (map : SortedMap String ν) (name : String) :
    get? name map.entries = map.get? name := by
  rw [SortedMap.get?]
  generalize map.entries = entries
  induction entries with
  | nil => rfl
  | cons entry rest inductionHypothesis =>
    have same : entry.1 = name ↔ compare name entry.1 = .eq :=
      eq_comm.trans Std.compare_eq_iff_eq.symm
    simp only [get?, SortedMap.lookup, same, inductionHypothesis]

@[simp]
theorem get?_append : get? name (first ++ second) = (get? name first).or (get? name second) := by
  induction first with
  | nil => rfl
  | cons field rest inductionHypothesis =>
    rw [List.cons_append, get?, get?]
    split
    · rfl
    · exact inductionHypothesis

theorem get?_map (image : ν → μ) (name : String) (fields : List (String × ν)) :
    get? name (fields.map fun field => (field.1, image field.2)) =
      (get? name fields).map image := by
  induction fields with
  | nil => rfl
  | cons field rest inductionHypothesis =>
    rw [List.map_cons, get?, get?]
    split
    · rfl
    · exact inductionHypothesis

theorem names_map (image : ν → μ) (fields : List (String × ν)) :
    names (fields.map fun field => (field.1, image field.2)) = names fields := by
  rw [names, List.map_map, names]
  rfl

theorem names_append_sublist {known others : List String} (sublist : (names first).Sublist known)
    (sublistToo : (names second).Sublist others) :
    (names (first ++ second)).Sublist (known ++ others) := by
  rw [names, List.map_append]
  exact sublist.append sublistToo

/-- Where names differ, the order of members does not matter. -/
theorem get?_of_perm {others : List (String × ν)} (perm : fields.Perm others)
    (once : (names fields).Nodup) (name : String) : get? name fields = get? name others := by
  have onceToo : (names others).Nodup := (perm.map Prod.fst).nodup_iff.mp once
  refine Option.ext fun value => ⟨fun found => ?_, fun found => ?_⟩
  · exact get?_of_mem onceToo (perm.mem_iff.mp (mem_of_get? found))
  · exact get?_of_mem once (perm.mem_iff.mpr (mem_of_get? found))

/-- A member of a new name comes last. -/
theorem set_of_fresh (fresh : has name fields = false) :
    set name value fields = fields ++ [(name, value)] := by
  induction fields with
  | nil => rfl
  | cons field rest inductionHypothesis =>
    by_cases atHead : field.1 = name
    · rw [has, get?, if_pos atHead] at fresh
      cases fresh
    · rw [has, get?, if_neg atHead] at fresh
      rw [set, if_neg atHead, inductionHypothesis fresh, List.cons_append]

/-- Assignments under different new names are kept as they are. -/
theorem foldl_set_of_nodup : ∀ {before : List (String × ν)}, (names (before ++ fields)).Nodup →
    fields.foldl (fun fields assignment => set assignment.1 assignment.2 fields) before =
      before ++ fields := by
  induction fields with
  | nil => exact fun _ => (List.append_nil _).symm
  | cons field rest inductionHypothesis =>
    intro before nodup
    have fresh : has field.1 before = false := by
      refine has_eq_false_iff.mpr fun member => ?_
      rw [names, List.map_append] at nodup
      exact (List.nodup_append.mp nodup).2.2 _ member _ List.mem_cons_self rfl
    rw [List.foldl_cons, set_of_fresh fresh, inductionHypothesis (by simpa using nodup)]
    simp

theorem ofList_of_nodup (nodup : (names fields).Nodup) : ofList fields = fields :=
  foldl_set_of_nodup nodup

end StackSynth.Fields
