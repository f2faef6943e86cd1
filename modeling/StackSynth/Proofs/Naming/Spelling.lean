/-
This file proves how generated names are spelled. All of them consist of letters and digits, so none
is the name of a pseudo parameter; and the names that are made for the slots of assets and for
exports tell apart what they are made from, as long as their suffixes do.
-/

import StackSynth.Deferred.Basic
import StackSynth.Proofs.Naming.Ids

namespace StackSynth.Naming

/-! ### Letters and digits -/

/-- A text of letters and digits only. -/
def IsName (name : String) : Prop := ∀ letter ∈ name.toList, letter.isAlphanum = true

variable {name other : String}

theorem IsName.append (isName : IsName name) (isOther : IsName other) : IsName (name ++ other) := by
  intro letter member
  rw [String.toList_append] at member
  rcases List.mem_append.mp member with inFront | inBack
  · exact isName letter inFront
  · exact isOther letter inBack

theorem IsName.prefixOf (isName : IsName name) (length : Nat) : IsName (prefixOf length name) := by
  intro letter member
  rw [Naming.prefixOf, String.toList_ofList] at member
  exact isName letter (List.mem_of_mem_take member)

theorem isName_alphanumeric (text : String) : IsName (alphanumeric text) := by
  intro letter member
  rw [alphanumeric, String.toList_ofList] at member
  exact (List.mem_filter.mp member).2

/-- A digest in capitals is written with letters and digits. -/
theorem isName_capitals (registers : Sha256.Registers) :
    IsName (String.ofList ((Sha256.hexDigits registers).map Char.toUpper)) := by
  have capital : ∀ value : Fin 16, (Sha256.hexDigit value.val).toUpper.isAlphanum = true := by
    decide
  intro letter member
  rw [String.toList_ofList] at member
  obtain ⟨digit, inDigest, rfl⟩ := List.mem_map.mp member
  obtain ⟨value, rfl⟩ := Sha256.exists_value_of_mem_hexDigits inDigest
  exact capital value

theorem isName_idSuffix (text : String) : IsName (idSuffix text) := by
  have capitals := (isName_capitals (Sha256.digest text.toUTF8)).prefixOf suffixLength
  rwa [prefixOf, String.toList_ofList, ← List.map_take] at capitals

theorem isName_join_alphanumeric (components : List String) :
    IsName (String.join (components.map alphanumeric)) := by
  intro letter member
  rw [String.toList_join] at member
  obtain ⟨part, isPart, inPart⟩ := List.mem_flatMap.mp member
  obtain ⟨component, _, rfl⟩ := List.mem_map.mp isPart
  exact isName_alphanumeric component letter inPart

theorem isName_readablePart (components : List String) : IsName (readablePart components) :=
  (isName_join_alphanumeric _).prefixOf _

/-- Ids consist of letters and digits. -/
theorem isName_uniqueId (path : List String) : IsName (uniqueId path) := by
  rcases plain_or_hashed path with ⟨id, plain⟩ | ⟨text, hashed⟩
  · rw [uniqueId_of_plain plain]
    rw [plainId?] at plain
    split at plain
    · cases plain
      exact fun _ never => absurd never List.not_mem_nil
    · split at plain
      · cases plain
        exact isName_alphanumeric _
      · cases plain
    · cases plain
  · rw [uniqueId_of_hashed hashed]
    exact (isName_readablePart _).append (isName_idSuffix text)

theorem IsName.bounded (isName : IsName name) : IsName (bounded name) := by
  rw [Naming.bounded]
  split
  · exact isName
  · exact (isName.prefixOf _).append (isName_idSuffix name)

/-- Parameters that receive a value have names of letters and digits. -/
theorem isName_parameterName (path : List String) (attr : String) :
    IsName (parameterName path attr) := by
  have isPrefix : IsName "referenceto" := by
    have letters : "referenceto".toList.all Char.isAlphanum = true := by decide
    exact List.all_eq_true.mp letters
  exact ((isPrefix.append (isName_uniqueId path)).append (isName_alphanumeric attr)).bounded

/-- Outputs that export a value have names of letters and digits. -/
theorem isName_exportOutputName (value : String) : IsName (exportOutputName value) :=
  (isName_uniqueId _).bounded

/-- The names of pseudo parameters have colons in them. -/
theorem IsName.ne_pseudo (isName : IsName name) (pseudo : PseudoParameter) :
    name ≠ pseudo.name := by
  rintro rfl
  have colon : ':' ∈ pseudo.name.toList := by cases pseudo <;> decide
  exact absurd (isName ':' colon) (by decide)

/-! ### Lengths -/

theorem length_prefixOf_le (length : Nat) (text : String) :
    (prefixOf length text).length ≤ length := by
  rw [prefixOf, String.length_ofList]
  exact List.length_take_le _ _

/-- An id leaves room for an attribute of a few letters. -/
theorem length_uniqueId_le (path : List String) :
    (uniqueId path).length ≤ readableLimit + suffixLength := by
  rcases plain_or_hashed path with ⟨id, plain⟩ | ⟨text, hashed⟩
  · rw [uniqueId_of_plain plain]
    rw [plainId?] at plain
    split at plain
    · cases plain
      exact Nat.zero_le _
    · split at plain
      · rename_i short
        cases plain
        exact Nat.le_trans short (Nat.le_add_right _ _)
      · cases plain
    · cases plain
  · rw [uniqueId_of_hashed hashed, String.length_append, length_idSuffix]
    exact Nat.add_le_add_right (length_prefixOf_le _ _) _

/-! ### Names of asset parameters -/

/-- Where two texts end behind a separator that does not come again, the ends are the same if the
texts are, and so are the beginnings. -/
theorem append_separator_injective {separator : Char} {front back ending last : List Char}
    (notInEnding : separator ∉ ending) (notInLast : separator ∉ last)
    (same : front ++ separator :: ending = back ++ separator :: last) :
    front = back ∧ ending = last := by
  have behind : ∀ {between ending last : List Char}, separator ∉ ending →
      separator :: ending = between ++ separator :: last → between = [] ∧ ending = last := by
    intro between ending last notInEnding same
    cases between with
    | nil => exact ⟨rfl, (List.cons.inj same).2⟩
    | cons letter rest =>
      rw [(List.cons.inj same).2] at notInEnding
      exact absurd (List.mem_append_right _ List.mem_cons_self) notInEnding
  rcases List.append_eq_append_iff.mp same with ⟨between, rfl, sameBehind⟩ |
    ⟨between, rfl, sameBehind⟩
  · obtain ⟨rfl, sameEnding⟩ := behind notInEnding sameBehind
    exact ⟨(List.append_nil front).symm, sameEnding⟩
  · obtain ⟨rfl, sameEnding⟩ := behind notInLast sameBehind
    exact ⟨List.append_nil back, sameEnding.symm⟩

/-- The text whose suffix ends the name of a slot. A hidden hash is left out of it. -/
def assetText (hash : ContentHash) (slot : Asset.Slot) : String :=
  "/".intercalate (assetParametersComponent ::
    if hash = hiddenComponent then [slot.name] else [hash, slot.name])

/-- The name of a slot always has a suffix. -/
theorem hashedText?_asset (hash : ContentHash) (slot : Asset.Slot) :
    hashedText? [assetParametersComponent, hash, slot.name] = some (assetText hash slot) := by
  have slotSeen : ∀ rest : List String, (slot.name :: rest).filter (· ≠ hiddenComponent) =
      slot.name :: rest.filter (· ≠ hiddenComponent) := by
    intro rest
    exact List.filter_cons_of_pos (by cases slot <;> decide)
  rw [hashedText?, plainId?, assetText, visible, List.filter_cons_of_pos (by decide)]
  by_cases hidden : hash = hiddenComponent
  · rw [if_pos hidden, List.filter_cons_of_neg (by simpa using hidden), slotSeen]
    rfl
  · rw [if_neg hidden, List.filter_cons_of_pos (by simpa using hidden), slotSeen]
    rfl

/-- The text of a slot tells what asset and what slot it is. -/
theorem assetText_injective {hash second : ContentHash} {slot last : Asset.Slot}
    (same : assetText hash slot = assetText second last) : hash = second ∧ slot = last := by
  have noSlash : ∀ slot : Asset.Slot, '/' ∉ slot.name.toList := by
    intro slot
    cases slot <;> decide
  have sameSlot : ∀ {slot last : Asset.Slot}, slot.name.toList = last.name.toList →
      slot = last := by
    intro slot last sameName
    cases slot <;> cases last <;> first | rfl | exact absurd sameName (by decide)
  have letters : ∀ (hash : ContentHash) (slot : Asset.Slot), (assetText hash slot).toList =
      if hash = hiddenComponent then assetParametersComponent.toList ++ '/' :: slot.name.toList
      else (assetParametersComponent.toList ++ '/' :: hash.toList) ++ '/' :: slot.name.toList := by
    intro hash slot
    rw [assetText]
    split <;> simp
  have sameLetters := congrArg String.toList same
  rw [letters, letters] at sameLetters
  split at sameLetters
  · rename_i hiddenFirst
    split at sameLetters
    · rename_i hiddenSecond
      obtain ⟨_, sameName⟩ := append_separator_injective (noSlash _) (noSlash _) sameLetters
      exact ⟨hiddenFirst.trans hiddenSecond.symm, sameSlot sameName⟩
    · obtain ⟨sameFront, _⟩ := append_separator_injective (noSlash _) (noSlash _) sameLetters
      exact absurd (congrArg List.length sameFront) (by simp)
  · split at sameLetters
    · obtain ⟨sameFront, _⟩ := append_separator_injective (noSlash _) (noSlash _) sameLetters
      exact absurd (congrArg List.length sameFront) (by simp)
    · obtain ⟨sameFront, sameName⟩ := append_separator_injective (noSlash _) (noSlash _) sameLetters
      have sameHash := (List.cons.inj (List.append_cancel_left sameFront)).2
      exact ⟨String.ext_iff.mpr sameHash, sameSlot sameName⟩

/-- Slots share a name only if the suffixes fail to tell their texts apart. -/
theorem suffix_of_assetParameterName {hash second : ContentHash} {slot last : Asset.Slot}
    (same : assetParameterName hash slot.name = assetParameterName second last.name) :
    idSuffix (assetText hash slot) = idSuffix (assetText second last) := by
  rw [assetParameterName, assetParameterName, uniqueId_of_hashed (hashedText?_asset hash slot),
    uniqueId_of_hashed (hashedText?_asset second last)] at same
  exact suffix_of_append same

theorem head?_bounded (name : String) : (bounded name).toList.head? = name.toList.head? := by
  rw [bounded]
  split
  · rfl
  · rename_i long
    rw [prefixOf, String.toList_append, String.toList_ofList]
    cases letters : name.toList with
    | nil =>
      rw [← String.length_toList, letters] at long
      exact absurd (Nat.zero_le _) long
    | cons first rest => rfl

/-- A parameter that receives a value is not named like the slot of an asset. -/
theorem parameterName_ne_assetParameterName (path : List String) (attr : String)
    (hash : ContentHash) (slot : Asset.Slot) :
    parameterName path attr ≠ assetParameterName hash slot.name := by
  intro same
  have headParameter : (parameterName path attr).toList.head? = some 'r' := by
    rw [parameterName, head?_bounded, String.toList_append, String.toList_append]
    rfl
  have headSlot : (assetParameterName hash slot.name).toList.head? = some 'A' := by
    rw [assetParameterName, uniqueId_of_hashed (hashedText?_asset hash slot), visible,
      List.filter_cons_of_pos (by decide), readablePart, withoutEchoes,
      List.filter_cons_of_pos (by decide), List.map_cons, String.join_cons, prefixOf,
      String.toList_append, String.toList_append, String.toList_ofList]
    rfl
  rw [same, headSlot] at headParameter
  cases headParameter

/-! ### Names of exports -/

/-- The text whose suffix ends the name of an export. -/
def exportText (value : String) : String := "/".intercalate ["Exports", "Output" ++ value]

theorem exportText_injective {value second : String} (same : exportText value = exportText second) :
    value = second := by
  simpa [exportText, String.intercalate_cons_cons] using same

theorem hashedText?_export (value : String) :
    hashedText? ["Exports", "Output" ++ value] = some (exportText value) := by
  have seen : "Output" ++ value ≠ hiddenComponent := by
    intro same
    have sameLetters := congrArg String.toList same
    rw [String.toList_append] at sameLetters
    cases sameLetters
  rw [hashedText?, plainId?, exportText, visible, List.filter_cons_of_pos (by decide),
    List.filter_cons_of_pos (by simpa using seen)]
  rfl

/-- Values share the name of an export only if the suffixes fail to tell their texts apart. -/
theorem suffix_of_exportOutputName {value second : String}
    (same : exportOutputName value = exportOutputName second) :
    idSuffix (exportText value) = idSuffix (exportText second) := by
  have whole : ∀ value, exportOutputName value =
      readablePart (visible ["Exports", "Output" ++ value]) ++ idSuffix (exportText value) := by
    intro value
    have id := uniqueId_of_hashed (hashedText?_export value)
    have short : (uniqueId ["Exports", "Output" ++ value]).length ≤ nameLimit :=
      Nat.le_trans (length_uniqueId_le _) (by decide)
    rw [exportOutputName, bounded, if_pos short, id]
  rw [whole, whole] at same
  exact suffix_of_append same

/-- The name of a stack consists of letters, digits and hyphens. -/
theorem letters_of_isStackName (isName : isStackName name = true) :
    ∀ letter ∈ name.toList, letter.isAlphanum = true ∨ letter = '-' := by
  intro letter member
  rw [isStackName] at isName
  split at isName
  · rename_i noLetters
    rw [noLetters] at member
    cases member
  · rename_i first rest letters
    rw [letters] at member
    rw [Bool.and_eq_true, List.all_eq_true] at isName
    rcases List.mem_cons.mp member with rfl | later
    · exact .inl (by rw [Char.isAlphanum, isName.1]; rfl)
    · simpa using isName.2 letter later

/-- The name under which a stack exports an output tells the stack and the output. -/
theorem exportName_injective {stack second output last : String}
    (isStack : isStackName stack = true) (isOutput : IsName output)
    (same : exportName stack output = exportName second last) : stack = second ∧ output = last := by
  have noColon : ':' ∉ stack.toList := by
    intro member
    exact absurd (letters_of_isStackName isStack ':' member) (by decide)
  have noColonBehind : ':' ∉ output.toList := by
    intro member
    exact absurd (isOutput ':' member) (by decide)
  have sameLetters : stack.toList ++ ':' :: output.toList =
      second.toList ++ ':' :: last.toList := by
    simpa [exportName] using congrArg String.toList same
  obtain ⟨sameStack, _, sameOutput⟩ :=
    (List.append_cons_inj_of_notMem noColon noColonBehind).mp sameLetters
  exact ⟨String.ext_iff.mpr sameStack, String.ext_iff.mpr sameOutput⟩

end StackSynth.Naming
