/-
This file proves which paths share an id. The suffix of an id stands for the whole path without its
hidden components, so two ids that have one agree exactly if their paths do, as long as no two texts
have the same suffix. What remains are ids without a suffix: a path with a single visible component
stands for itself, and nothing keeps it apart from whatever is spelled the same.
-/

import Mathlib.Data.List.Basic
import StackSynth.Naming

namespace StackSynth.Naming

/-! ### Parts of an id -/

/-- The components of a path that count. -/
def visible (path : List String) : List String := path.filter (· ≠ hiddenComponent)

/-- The id of a path, if it has no suffix. -/
def plainId? (path : List String) : Option String :=
  match visible path with
  | [] => some ""
  | [component] =>
    if (alphanumeric component).length ≤ readableLimit then some (alphanumeric component) else none
  | _ => none

/-- The text that the suffix of an id stands for, if the id has one. -/
def hashedText? (path : List String) : Option String :=
  if (plainId? path).isSome then none else some ("/".intercalate (visible path))

variable {path first second : List String} {text other : String}

theorem uniqueId_of_plain {id : String} (plain : plainId? path = some id) : uniqueId path = id := by
  rw [plainId?] at plain
  rw [uniqueId, ← visible]
  split at plain
  · rename_i nothing
    rw [nothing]
    exact Option.some.inj plain
  · rename_i component single
    rw [single]
    split at plain
    · rename_i short
      exact (if_pos short).trans (Option.some.inj plain)
    · cases plain
  · cases plain

theorem uniqueId_of_hashed (hashed : hashedText? path = some text) :
    uniqueId path = readablePart (visible path) ++ idSuffix text := by
  rw [hashedText?] at hashed
  split at hashed
  · cases hashed
  · rename_i notPlain
    cases hashed
    rw [plainId?] at notPlain
    rw [uniqueId, ← visible]
    cases seen : visible path with
    | nil =>
      rw [seen] at notPlain
      exact absurd rfl notPlain
    | cons component rest =>
      rw [seen] at notPlain
      cases rest with
      | nil =>
        by_cases short : (alphanumeric component).length ≤ readableLimit
        · simp only [if_pos short] at notPlain
          exact absurd rfl notPlain
        · rw [String.intercalate_singleton]
          exact if_neg short
      | cons next further => rfl

theorem text_of_hashed (hashed : hashedText? path = some text) :
    text = "/".intercalate (visible path) := by
  rw [hashedText?] at hashed
  split at hashed
  · cases hashed
  · exact (Option.some.inj hashed).symm

/-- An id has a suffix or is plain. -/
theorem plain_or_hashed (path : List String) :
    (∃ id, plainId? path = some id) ∨ ∃ text, hashedText? path = some text := by
  cases plain : plainId? path with
  | some id => exact .inl ⟨id, rfl⟩
  | none =>
    refine .inr ⟨"/".intercalate (visible path), ?_⟩
    rw [hashedText?, plain]
    rfl

/-- Texts that end in suffixes have the same suffix when they are the same. -/
theorem suffix_of_append {front back : String}
    (same : front ++ idSuffix text = back ++ idSuffix other) : idSuffix text = idSuffix other := by
  have sameLetters :
      front.toList ++ (idSuffix text).toList = back.toList ++ (idSuffix other).toList := by
    simpa only [String.toList_append] using congrArg String.toList same
  have sameLength : (idSuffix text).toList.length = (idSuffix other).toList.length := by
    rw [String.length_toList, String.length_toList, length_idSuffix, length_idSuffix]
  exact String.ext_iff.mpr (List.append_inj' sameLetters sameLength).2

/-! ### Paths between slashes -/

/-- Components as the tree admits them: not empty and without slashes. -/
def Usable (path : List String) : Prop :=
  ∀ component ∈ path, component ≠ "" ∧ '/' ∉ component.toList

instance (path : List String) : Decidable (Usable path) :=
  inferInstanceAs (Decidable (∀ component ∈ path, component ≠ "" ∧ '/' ∉ component.toList))

theorem Usable.visible (usable : Usable path) : Usable (visible path) :=
  fun component member => usable component (List.mem_filter.mp member).1

theorem intercalate_ne_empty (usable : Usable path) (some : path ≠ []) :
    "/".intercalate path ≠ "" := by
  intro empty
  cases path with
  | nil => exact some rfl
  | cons component rest =>
    have notEmpty := (usable component List.mem_cons_self).1
    cases rest with
    | nil =>
      rw [String.intercalate_singleton] at empty
      exact notEmpty empty
    | cons next further =>
      rw [String.intercalate_cons_cons] at empty
      have letters := congrArg String.toList empty
      simp at letters

/-- A path can be read back from its components between slashes. -/
theorem intercalate_injective (usableFirst : Usable first) (usableSecond : Usable second)
    (same : "/".intercalate first = "/".intercalate second) : first = second := by
  have empty : ∀ {path : List String}, Usable path → "/".intercalate path = "" → path = [] := by
    intro path usable noText
    by_contra some
    exact intercalate_ne_empty usable some noText
  by_cases noFirst : first = []
  · rw [noFirst, String.intercalate_nil] at same
    rw [noFirst, empty usableSecond same.symm]
  by_cases noSecond : second = []
  · rw [noSecond, String.intercalate_nil] at same
    rw [noSecond, empty usableFirst same]
  have split : ∀ {path : List String}, Usable path → path ≠ [] →
      (("/".intercalate path).toList.splitOn '/') = path.map String.toList := by
    intro path usable some
    rw [String.toList_intercalate]
    refine List.splitOn_intercalate '/' ?_ (by simpa using some)
    intro letters member
    obtain ⟨component, isComponent, rfl⟩ := List.mem_map.mp member
    exact (usable component isComponent).2
  have sameLetters : first.map String.toList = second.map String.toList := by
    rw [← split usableFirst noFirst, same, split usableSecond noSecond]
  exact List.map_injective_iff.mpr (fun _ _ equal => String.ext_iff.mpr equal) sameLetters

/-! ### Paths that share an id -/

/-- Two paths that no suffix keeps apart: they have the same visible components, or the id of one
has no suffix and is spelled like the id of the other. -/
def Confused (first second : List String) : Prop :=
  visible first = visible second ∨ plainId? first = some (uniqueId second) ∨
    plainId? second = some (uniqueId first)

/-- The suffixes of two paths tell their texts apart. -/
def Separate (first second : List String) : Prop :=
  ∀ text other, hashedText? first = some text → hashedText? second = some other →
    idSuffix text = idSuffix other → text = other

/-- Two paths share an id exactly if they are confused. -/
theorem uniqueId_eq_iff (usableFirst : Usable first) (usableSecond : Usable second)
    (separate : Separate first second) :
    uniqueId first = uniqueId second ↔ Confused first second := by
  constructor
  · intro same
    rcases plain_or_hashed first with ⟨id, plain⟩ | ⟨text, hashed⟩
    · exact .inr (.inl (by rw [plain, ← same, uniqueId_of_plain plain]))
    · rcases plain_or_hashed second with ⟨id, plain⟩ | ⟨other, hashedOther⟩
      · exact .inr (.inr (by rw [plain, same, uniqueId_of_plain plain]))
      · rw [uniqueId_of_hashed hashed, uniqueId_of_hashed hashedOther] at same
        have sameText := separate text other hashed hashedOther (suffix_of_append same)
        rw [text_of_hashed hashed, text_of_hashed hashedOther] at sameText
        exact .inl (intercalate_injective usableFirst.visible usableSecond.visible sameText)
  · rintro (sameVisible | plain | plain)
    · exact congrArg idOfVisible sameVisible
    · exact uniqueId_of_plain plain
    · exact (uniqueId_of_plain plain).symm

end StackSynth.Naming
