/-
This file proves how long generated names are and when they are empty. Ids are cut so that a suffix
still fits behind them, and all that is made from an id is bounded. What keeps a name from being
empty is its suffix or a word of its own, and an id without a suffix has neither: it is empty if
its path has no component that counts, or a single one without letters and digits.
-/

import StackSynth.Proofs.Naming.Spelling

namespace StackSynth.Naming

/-- A name as a template takes it: letters and digits only, and not too many. -/
structure Spelled (name : String) : Prop where
  letters : IsName name
  short : name.length ≤ nameLimit

variable {path other : List String} {name text attr : String}

theorem length_bounded_le (name : String) : (bounded name).length ≤ nameLimit := by
  rw [bounded]
  split
  · assumption
  · rw [String.length_append, length_idSuffix]
    exact Nat.le_trans (Nat.add_le_add_right (length_prefixOf_le _ _) _) (by decide)

theorem spelled_uniqueId (path : List String) : Spelled (uniqueId path) where
  letters := isName_uniqueId path
  short := Nat.le_trans (length_uniqueId_le path) (by decide)

theorem spelled_bounded (isName : IsName name) : Spelled (bounded name) where
  letters := isName.bounded
  short := length_bounded_le name

theorem spelled_outputName (path : List String) (attr : String) : Spelled (outputName path attr) :=
  spelled_bounded ((isName_uniqueId path).append (isName_alphanumeric attr))

theorem spelled_parameterName (path : List String) (attr : String) :
    Spelled (parameterName path attr) where
  letters := isName_parameterName path attr
  short := length_bounded_le _

theorem spelled_exportOutputName (value : String) : Spelled (exportOutputName value) :=
  spelled_bounded (isName_uniqueId _)

/-! ### Paths that leave nothing to make an id from -/

/-- At most one component of a path counts, and that one has neither letters nor digits. -/
def Mute (path : List String) : Prop :=
  (visible path).length ≤ 1 ∧ ∀ component ∈ visible path, alphanumeric component = ""

instance (path : List String) : Decidable (Mute path) :=
  inferInstanceAs (Decidable (_ ∧ _))

/-- What is left of a path that says nothing says nothing. -/
theorem Mute.of_sublist (mute : Mute path) (sublist : other.Sublist path) : Mute other := by
  have visibleToo : (visible other).Sublist (visible path) := sublist.filter _
  exact ⟨Nat.le_trans visibleToo.length_le mute.1,
    fun component member => mute.2 component (visibleToo.subset member)⟩

theorem mute_iff_plain : Mute path ↔ plainId? path = some "" := by
  rw [Mute, plainId?]
  cases visible path with
  | nil => simp
  | cons component rest =>
    cases rest with
    | nil =>
      by_cases short : (alphanumeric component).length ≤ readableLimit
      · simp [if_pos short]
      · have spoken : alphanumeric component ≠ "" := by
          rintro silent
          rw [silent] at short
          exact short (Nat.zero_le _)
        simp [if_neg short, spoken]
    | cons next further => simp

/-- An id is empty exactly if its path says nothing. -/
theorem uniqueId_eq_empty_iff : uniqueId path = "" ↔ Mute path := by
  rw [mute_iff_plain]
  constructor
  · intro empty
    rcases plain_or_hashed path with ⟨id, plain⟩ | ⟨text, hashed⟩
    · rw [plain, ← uniqueId_of_plain plain, empty]
    · rw [uniqueId_of_hashed hashed] at empty
      have noLength := congrArg String.length empty
      rw [String.length_append, length_idSuffix] at noLength
      exact absurd noLength (by simp [suffixLength])
  · exact uniqueId_of_plain

theorem uniqueId_ne_empty_of_hashed (hashed : hashedText? path = some text) :
    uniqueId path ≠ "" := by
  intro empty
  rw [hashedText?, mute_iff_plain.mp (uniqueId_eq_empty_iff.mp empty)] at hashed
  cases hashed

/-! ### Names that are made from ids -/

theorem bounded_eq_empty_iff : bounded name = "" ↔ name = "" := by
  have noHead : ∀ text : String, text = "" ↔ text.toList.head? = none := by
    intro text
    rw [List.head?_eq_none_iff, String.toList_eq_nil_iff]
  rw [noHead, head?_bounded, ← noHead]

theorem alphanumeric_ref_ne_empty : alphanumeric "Ref" ≠ "" := by decide

theorem alphanumeric_embeddedOutput_ne_empty (output : String) :
    alphanumeric (embeddedOutput output) ≠ "" := by
  intro empty
  have letters := congrArg String.toList empty
  rw [alphanumeric, embeddedOutput, String.toList_ofList, String.toList_append,
    List.filter_append] at letters
  exact absurd (List.append_eq_nil_iff.mp letters).1 (by decide)

/-- Only the output of something whose path and attribute say nothing has an empty name. -/
theorem outputName_eq_empty_iff :
    outputName path attr = "" ↔ Mute path ∧ alphanumeric attr = "" := by
  rw [outputName, bounded_eq_empty_iff, String.append_eq_empty_iff, uniqueId_eq_empty_iff]

theorem parameterName_ne_empty (path : List String) (attr : String) :
    parameterName path attr ≠ "" := by
  rw [parameterName, Ne, bounded_eq_empty_iff, String.append_eq_empty_iff,
    String.append_eq_empty_iff]
  rintro ⟨⟨never, _⟩, _⟩
  exact absurd never (by decide)

theorem exportOutputName_ne_empty (value : String) : exportOutputName value ≠ "" := by
  rw [exportOutputName, Ne, bounded_eq_empty_iff]
  exact uniqueId_ne_empty_of_hashed (hashedText?_export value)

theorem assetParameterName_ne_empty (hash : ContentHash) (slot : Asset.Slot) :
    assetParameterName hash slot.name ≠ "" :=
  uniqueId_ne_empty_of_hashed (hashedText?_asset hash slot)

end StackSynth.Naming
