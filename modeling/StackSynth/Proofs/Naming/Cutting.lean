/-
This file makes names with operations that may fault. Names are cut behind a number of bytes, and
that has no meaning inside of a character that takes several. What is cut consists of letters and
digits, however little the paths and attributes do that it is made from, and these take one byte
each; so no operation faults, and the names are those that are made by counting characters.
-/

import StackSynth.Proofs.Guarded
import StackSynth.Proofs.Naming.Spelling

namespace StackSynth.Naming

open Guarded Outcome

variable {name : String}

/-! ### Names that are cut behind bytes -/

/-- The digits that identify a manifest, cut off from all digits of its digest. -/
def guardedShortTextHash (text : String) : Guarded String :=
  front manifestHashLength (textHash text)

/-- The suffix of a text, cut off from all digits of its digest. -/
def guardedSuffix (text : String) : Guarded String :=
  cut suffixLength
    (String.ofList ((Sha256.hexDigits (Sha256.digest text.toUTF8)).map Char.toUpper))

/-- The readable part of an id, cut to its limit. -/
def guardedReadablePart (components : List String) : Guarded String :=
  cut readableLimit
    (String.join (((withoutEchoes none components).filter (· ≠ quietComponent)).map alphanumeric))

/-- The readable part of an id and the suffix behind it. -/
def guardedHashedId (components : List String) : Guarded String := do
  let suffix ← guardedSuffix ("/".intercalate components)
  let readable ← guardedReadablePart components
  return readable ++ suffix

/-- The id of visible components. -/
def guardedIdOfVisible (components : List String) : Guarded String :=
  if components.length = 0 then return ""
  else if components.length = 1 then do
    let candidate := alphanumeric (← known components[0]?)
    if candidate.utf8ByteSize ≤ readableLimit then return candidate
    else guardedHashedId components
  else guardedHashedId components

/-- The id of a path. -/
def guardedUniqueId (path : List String) : Guarded String :=
  guardedIdOfVisible (path.filter (· ≠ hiddenComponent))

/-- A name cut to its limit. -/
def guardedBounded (name : String) : Guarded String :=
  if name.utf8ByteSize ≤ nameLimit then return name
  else do
    let suffix ← guardedSuffix name
    let kept ← cut (← less nameLimit suffixLength) name
    return kept ++ suffix

/-- The output by which a stack shows an attribute. -/
def guardedOutputName (path : List String) (attr : String) : Guarded String := do
  guardedBounded ((← guardedUniqueId path) ++ alphanumeric attr)

/-- The parameter by which a nested stack receives an attribute. -/
def guardedParameterName (path : List String) (attr : String) : Guarded String := do
  guardedBounded ("referenceto" ++ (← guardedUniqueId path) ++ alphanumeric attr)

/-- The output that exports a value. -/
def guardedExportOutputName (value : String) : Guarded String := do
  guardedBounded (← guardedUniqueId ["Exports", "Output" ++ value])

/-- The parameter of a stack for one slot of an asset. -/
def guardedAssetParameterName (hash : ContentHash) (slot : String) : Guarded String :=
  guardedUniqueId [assetParametersComponent, hash, slot]

/-! ### None of them faults -/

/-- Letters and digits take one byte each. -/
theorem IsName.ascii (isName : IsName name) : Ascii name := by
  intro letter member
  have ranges : ((65 ≤ letter.val ∧ letter.val ≤ 90) ∨ (97 ≤ letter.val ∧ letter.val ≤ 122)) ∨
      (48 ≤ letter.val ∧ letter.val ≤ 57) := by
    have isAlphanum : ((decide (65 ≤ letter.val ∧ letter.val ≤ 90) ||
        (decide (97 ≤ letter.val) && decide (letter.val ≤ 122))) ||
        (decide (48 ≤ letter.val) && decide (letter.val ≤ 57))) = true := isName letter member
    simpa only [Bool.or_eq_true, Bool.and_eq_true, decide_eq_true_eq] using isAlphanum
  rw [Char.utf8Size_eq_one_iff]
  simp only [UInt32.le_iff_toNat_le, UInt32.reduceToNat] at ranges ⊢
  omega

theorem guardedShortTextHash_eq (text : String) :
    guardedShortTextHash text = .ok (shortTextHash text) := by
  have small : ∀ value : Fin 16, (Sha256.hexDigit value.val).utf8Size = 1 := by decide
  have ascii : Ascii (textHash text) := by
    intro letter member
    rw [textHash, contentHash, String.toList_ofList] at member
    obtain ⟨value, rfl⟩ := Sha256.exists_value_of_mem_hexDigits member
    exact small value
  have enough : manifestHashLength ≤ (textHash text).utf8ByteSize := by
    rw [utf8ByteSize_of_ascii ascii, textHash, contentHash, String.length_ofList,
      Sha256.length_hexDigits]
    decide
  rw [guardedShortTextHash, front, if_pos enough, cut_of_ascii ascii, textHash, contentHash,
    String.toList_ofList]
  rfl

theorem guardedSuffix_eq (text : String) : guardedSuffix text = .ok (idSuffix text) := by
  rw [guardedSuffix, cut_of_ascii (isName_capitals _).ascii, String.toList_ofList, ← List.map_take]
  rfl

theorem guardedHashedId_eq (components : List String) : guardedHashedId components =
    .ok (readablePart components ++ idSuffix ("/".intercalate components)) := by
  have readable : guardedReadablePart components = .ok (readablePart components) :=
    cut_of_ascii (isName_join_alphanumeric _).ascii readableLimit
  rw [guardedHashedId, guardedSuffix_eq, ok_bind, readable]
  rfl

theorem guardedIdOfVisible_eq (components : List String) :
    guardedIdOfVisible components = .ok (idOfVisible components) := by
  cases components with
  | nil => rfl
  | cons component rest =>
    cases rest with
    | nil =>
      have candidate : (alphanumeric component).utf8ByteSize = (alphanumeric component).length :=
        utf8ByteSize_of_ascii (isName_alphanumeric component).ascii
      have decided : guardedIdOfVisible [component] =
          if (alphanumeric component).utf8ByteSize ≤ readableLimit then
            .ok (alphanumeric component)
          else guardedHashedId [component] := rfl
      rw [decided, candidate, guardedHashedId_eq, String.intercalate_singleton, idOfVisible]
      split <;> rfl
    | cons next further => exact guardedHashedId_eq (component :: next :: further)

/-- The id of a path is made without a fault, whatever characters the path holds. -/
theorem guardedUniqueId_eq (path : List String) : guardedUniqueId path = .ok (uniqueId path) :=
  guardedIdOfVisible_eq _

/-- A name of one byte a character is bounded without a fault. -/
theorem guardedBounded_eq (ascii : Ascii name) : guardedBounded name = .ok (bounded name) := by
  rw [guardedBounded, bounded, utf8ByteSize_of_ascii ascii]
  split
  · rfl
  · rw [guardedSuffix_eq, ok_bind, less_of_le (by decide), ok_bind, cut_of_ascii ascii]
    rfl

theorem guardedOutputName_eq (path : List String) (attr : String) :
    guardedOutputName path attr = .ok (outputName path attr) := by
  rw [guardedOutputName, guardedUniqueId_eq, ok_bind]
  exact guardedBounded_eq ((isName_uniqueId path).append (isName_alphanumeric attr)).ascii

theorem guardedParameterName_eq (path : List String) (attr : String) :
    guardedParameterName path attr = .ok (parameterName path attr) := by
  have isPrefix : IsName "referenceto" :=
    List.all_eq_true.mp (by decide : "referenceto".toList.all Char.isAlphanum = true)
  rw [guardedParameterName, guardedUniqueId_eq, ok_bind]
  exact guardedBounded_eq
    ((isPrefix.append (isName_uniqueId path)).append (isName_alphanumeric attr)).ascii

theorem guardedExportOutputName_eq (value : String) :
    guardedExportOutputName value = .ok (exportOutputName value) := by
  rw [guardedExportOutputName, guardedUniqueId_eq, ok_bind]
  exact guardedBounded_eq (isName_uniqueId _).ascii

end StackSynth.Naming
