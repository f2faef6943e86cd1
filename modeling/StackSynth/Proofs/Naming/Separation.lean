/-
This file proves that suffixes tell names apart. What is readable of a name says little: components
are left out where they repeat or say nothing, all but letters and digits is left out, and the rest
is cut off. But the suffix is taken of the whole text that stands behind the name, and of that text
everything can be read back; so names with suffixes agree exactly if what they are made from does,
unless two texts have one suffix.
-/

import StackSynth.Proofs.Naming.Cutting
import StackSynth.Proofs.Naming.Ids

namespace StackSynth.Naming

open Guarded

variable {path first second : List String} {name other : String}

/-- A path whose id has a suffix: several of its components count, or one that has more letters and
digits than are readable. -/
def Suffixed (path : List String) : Prop :=
  2 ≤ (visible path).length ∨
    ∃ component, visible path = [component] ∧ readableLimit < (alphanumeric component).length

/-- The suffixes of two texts are the same only if they are. -/
def TellsApart (text other : String) : Prop := idSuffix text = idSuffix other → text = other

/-- The suffix stands for all components that count. -/
theorem hashedText?_of_suffixed (suffixed : Suffixed path) :
    hashedText? path = some ("/".intercalate (visible path)) := by
  have notPlain : plainId? path = none := by
    rw [plainId?]
    rcases suffixed with several | ⟨component, single, long⟩
    · split
      · rename_i nothing
        rw [nothing] at several
        cases several
      · rename_i component single
        rw [single] at several
        exact absurd several (Nat.lt_irrefl 1)
      · rfl
    · rw [single]
      exact if_neg (Nat.not_le_of_lt long)
  rw [hashedText?, notPlain]
  rfl

/-- Ids with suffixes agree exactly if the components that count do. -/
theorem uniqueId_eq_iff_of_suffixed (usableFirst : Usable first) (usableSecond : Usable second)
    (suffixedFirst : Suffixed first) (suffixedSecond : Suffixed second)
    (apart : TellsApart ("/".intercalate (visible first)) ("/".intercalate (visible second))) :
    uniqueId first = uniqueId second ↔ visible first = visible second := by
  constructor
  · intro same
    rw [uniqueId_of_hashed (hashedText?_of_suffixed suffixedFirst),
      uniqueId_of_hashed (hashedText?_of_suffixed suffixedSecond)] at same
    exact intercalate_injective usableFirst.visible usableSecond.visible
      (apart (suffix_of_append same))
  · exact congrArg idOfVisible

/-- A name that is cut has exactly the greatest length. -/
theorem length_bounded_of_long (long : nameLimit < name.length) :
    (bounded name).length = nameLimit := by
  have enough : nameLimit - suffixLength ≤ name.length :=
    Nat.le_trans (Nat.sub_le _ _) (Nat.le_of_lt long)
  rw [bounded, if_neg (Nat.not_le_of_lt long), String.length_append, length_idSuffix, prefixOf,
    String.length_ofList, List.length_take, String.length_toList, Nat.min_eq_left enough]
  rfl

/-- Names that are cut agree exactly if they did before. -/
theorem bounded_eq_iff_of_long (long : nameLimit < name.length) (longToo : nameLimit < other.length)
    (apart : TellsApart name other) : bounded name = bounded other ↔ name = other := by
  constructor
  · intro same
    rw [bounded, bounded, if_neg (Nat.not_le_of_lt long), if_neg (Nat.not_le_of_lt longToo)] at same
    exact apart (suffix_of_append same)
  · exact congrArg bounded

/-- Where suffixes tell the texts behind them apart, ids with a suffix tell apart which components
count, and names that are cut to the greatest length tell apart what they were. -/
theorem suffixes_tell_names_apart :
    (∀ first second : List String, Usable first → Usable second → Suffixed first →
      Suffixed second →
      TellsApart ("/".intercalate (visible first)) ("/".intercalate (visible second)) →
      (uniqueId first = uniqueId second ↔ visible first = visible second)) ∧
    ∀ name other : String, Ascii name → Ascii other → nameLimit < name.length →
      nameLimit < other.length → TellsApart name other →
      guardedBounded name = .ok (bounded name) ∧ guardedBounded other = .ok (bounded other) ∧
        (bounded name).length = nameLimit ∧ (bounded other).length = nameLimit ∧
        (bounded name = bounded other ↔ name = other) := by
  constructor
  · intro first second usableFirst usableSecond suffixedFirst suffixedSecond
    exact uniqueId_eq_iff_of_suffixed usableFirst usableSecond suffixedFirst suffixedSecond
  · intro name other ascii asciiToo long longToo apart
    exact ⟨guardedBounded_eq ascii, guardedBounded_eq asciiToo, length_bounded_of_long long,
      length_bounded_of_long longToo, bounded_eq_iff_of_long long longToo apart⟩

/-- A name of crosses. -/
def crosses (count : Nat) : String := String.ofList (List.replicate count 'x')

theorem length_crosses (count : Nat) : (crosses count).length = count := by
  rw [crosses, String.length_ofList, List.length_replicate]

theorem ascii_crosses (count : Nat) : Ascii (crosses count) := by
  intro letter member
  rw [crosses, String.toList_ofList] at member
  rw [List.eq_of_mem_replicate member]
  rfl

/-- A component that is left out of the readable part, and a letter that is cut off, still show. -/
theorem hidden_parts_show :
    uniqueId ["Stack", "Bucket"] ≠ uniqueId ["Stack", "Bucket", "Resource"] ∧
      bounded (crosses 256) ≠ bounded (crosses 257) := by
  obtain ⟨ids, names⟩ := suffixes_tell_names_apart
  constructor
  · have apart : idSuffix ("/".intercalate (visible ["Stack", "Bucket"])) ≠
        idSuffix ("/".intercalate (visible ["Stack", "Bucket", "Resource"])) := by
      decide +kernel
    have agree := ids ["Stack", "Bucket"] ["Stack", "Bucket", "Resource"] (by decide) (by decide)
      (.inl (by decide)) (.inl (by decide)) fun same => absurd same apart
    exact fun same => absurd (agree.mp same) (by decide)
  · have apart : idSuffix (crosses 256) ≠ idSuffix (crosses 257) := by decide +kernel
    have long : ∀ count, nameLimit < count → nameLimit < (crosses count).length :=
      fun count long => (length_crosses count).symm ▸ long
    obtain ⟨_, _, _, _, agree⟩ := names (crosses 256) (crosses 257) (ascii_crosses 256)
      (ascii_crosses 257) (long 256 (by decide)) (long 257 (by decide))
      fun same => absurd same apart
    intro same
    have sameLength := congrArg String.length (agree.mp same)
    rw [length_crosses, length_crosses] at sameLength
    exact absurd sameLength (by decide)

end StackSynth.Naming
