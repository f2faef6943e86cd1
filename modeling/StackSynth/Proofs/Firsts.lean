/-
This file is about the items of a list that are met for the first time. Each of them is kept once
and in the order in which the list meets them.
-/

import Mathlib.Data.List.Nodup
import Mathlib.Data.List.Induction

namespace StackSynth

section Firsts

variable {α : Type} [BEq α] [LawfulBEq α] {first second : List α}

/-- Two lists that meet the same things in the same order for the first time. -/
def SameFirsts (first second : List α) : Prop := first.eraseDups = second.eraseDups

theorem SameFirsts.append (same : SameFirsts first second) (more : List α) :
    SameFirsts (first ++ more) (second ++ more) := by
  have sameMembers : ∀ item, first.contains item = second.contains item := by
    intro item
    rw [Bool.eq_iff_iff, List.contains_iff_mem, List.contains_iff_mem, ← List.mem_eraseDups,
      same, List.mem_eraseDups]
  have sameRest : more.removeAll first = more.removeAll second := by
    simp only [List.removeAll, List.elem_eq_contains, sameMembers]
  rw [SameFirsts, List.eraseDups_append, List.eraseDups_append, same, sameRest]

/-- What was met before is not met for the first time. -/
theorem sameFirsts_of_mem {item : α} (member : item ∈ first) :
    SameFirsts (first ++ [item]) first := by
  have nothing : [item].removeAll first = [] := by
    simp [List.removeAll, member]
  rw [SameFirsts, List.eraseDups_append, nothing, List.eraseDups_nil, List.append_nil]

end Firsts

theorem eraseDups_concat {α : Type} [BEq α] [LawfulBEq α] (items : List α) (item : α) :
    (items ++ [item]).eraseDups =
      if items.contains item then items.eraseDups else items.eraseDups ++ [item] := by
  split
  · rename_i member
    exact sameFirsts_of_mem (List.contains_iff_mem.mp member)
  · rename_i isNew
    have alone : [item].removeAll items = [item] := by
      simpa [List.removeAll] using isNew
    rw [List.eraseDups_append, alone]
    rfl

theorem nodup_eraseDups {α : Type} [BEq α] [LawfulBEq α] (items : List α) :
    items.eraseDups.Nodup := by
  induction items using List.reverseRecOn with
  | nil => exact List.nodup_nil
  | append_singleton items item inductionHypothesis =>
    rw [eraseDups_concat]
    split
    · exact inductionHypothesis
    · rename_i isNew
      refine List.nodup_append.mpr ⟨inductionHypothesis, List.nodup_singleton item, ?_⟩
      rintro old isOld _ isLast rfl
      rw [List.mem_singleton.mp isLast, List.mem_eraseDups] at isOld
      exact isNew (List.contains_iff_mem.mpr isOld)

/-- What is kept of a list, each item once, stands in the order of first occurrences. -/
theorem pairwise_idxOf_eraseDups {α : Type} [BEq α] [LawfulBEq α] (items : List α) :
    ∀ keeps : α → Bool, (items.filter keeps).eraseDups.Pairwise
      (fun first second => items.idxOf first < items.idxOf second) := by
  induction items with
  | nil => exact fun _ => .nil
  | cons head rest inductionHypothesis =>
    intro keeps
    -- all that is kept behind the head differs from it
    have further : ∀ keeps : α → Bool, (∀ item, keeps item = true → item ≠ head) →
        (rest.filter keeps).eraseDups.Pairwise
          (fun first second => (head :: rest).idxOf first < (head :: rest).idxOf second) := by
      intro keeps apart
      refine (inductionHypothesis keeps).imp_of_mem ?_
      intro first second isFirst isSecond earlier
      have firstApart := apart first (List.mem_filter.mp (List.mem_eraseDups.mp isFirst)).2
      have secondApart := apart second (List.mem_filter.mp (List.mem_eraseDups.mp isSecond)).2
      rw [List.idxOf_cons_ne _ firstApart.symm, List.idxOf_cons_ne _ secondApart.symm]
      exact Nat.succ_lt_succ earlier
    cases kept : keeps head with
    | false =>
      rw [List.filter_cons_of_neg (by simp [kept])]
      refine further keeps fun item isKept same => ?_
      rw [same, kept] at isKept
      cases isKept
    | true =>
      rw [List.filter_cons_of_pos kept, List.eraseDups_cons, List.filter_filter]
      have apart : ∀ item, ((!item == head) && keeps item) = true → item ≠ head := by
        intro item isKept
        simp only [Bool.and_eq_true, Bool.not_eq_true', beq_eq_false_iff_ne] at isKept
        exact isKept.1
      refine List.pairwise_cons.mpr ⟨fun item member => ?_, further _ apart⟩
      have itemApart := apart item (List.mem_filter.mp (List.mem_eraseDups.mp member)).2
      rw [List.idxOf_cons_self, List.idxOf_cons_ne _ itemApart.symm]
      exact Nat.succ_pos _

end StackSynth
