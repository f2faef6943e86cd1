/-
This file compares registries that know assets of the same content, published alike, under other
numbers of their stacks and in any order. The parameters of an asset are named after its hash, which
is a digest, and no two digests yield the same name; so the stacks declare the same parameters,
whatever the order in which assets were registered.
-/

import Mathlib.Logic.Equiv.Defs
import StackSynth.Proofs.Asset.Identity
import StackSynth.Proofs.Asset.Registry
import StackSynth.Proofs.Naming.Spelling

namespace StackSynth

/-- A map made of a list is the same for another list of the same entries, if no key has two
values. -/
theorem SortedMap.ofList_eq {κ ν : Type} [Ord κ] [Std.TransOrd κ] [Std.LawfulEqOrd κ]
    {first second : List (κ × ν)} (same : ∀ entry, entry ∈ first ↔ entry ∈ second)
    (single : ∀ key value other, (key, value) ∈ first → (key, other) ∈ first → value = other) :
    ofList first = ofList second := by
  refine ext_get? fun key => ?_
  cases known : (ofList first).get? key with
  | none =>
    cases knownToo : (ofList second).get? key with
    | none => rfl
    | some value =>
      have listed := (same _).mpr (mem_of_get?_ofList knownToo)
      obtain ⟨other, knownHere⟩ := contains_iff.mp (contains_ofList.mpr ⟨value, listed⟩)
      rw [known] at knownHere
      cases knownHere
  | some value =>
    have listed := mem_of_get?_ofList known
    obtain ⟨other, knownToo⟩ :=
      contains_iff.mp (contains_ofList.mpr ⟨value, (same _).mp listed⟩)
    rw [knownToo]
    exact congrArg some (single key value other listed
      ((same _).mpr (mem_of_get?_ofList knownToo)))

/-! ### Names of parameters -/

namespace Naming

/-- A text that is a digest. -/
def IsDigest (hash : ContentHash) : Prop :=
  hash.toList.length = 64 ∧
    ∀ digit ∈ hash.toList, digit.isAlphanum = true ∧ digit.isUpper = false

theorem isDigest_contentHash (bytes : ByteArray) : IsDigest (contentHash bytes) := by
  rw [IsDigest, contentHash, String.toList_ofList]
  exact ⟨Sha256.length_hexDigits _, fun _ member => Sha256.not_isUpper_of_mem member⟩

variable {hash second : ContentHash} {slot last : Asset.Slot}

/-- No digest is a word that has a capital letter. -/
theorem IsDigest.ne (isDigest : IsDigest hash) {word : String}
    (capital : word.toList.any Char.isUpper = true) : hash ≠ word := by
  rintro rfl
  obtain ⟨letter, member, isUpper⟩ := List.any_eq_true.mp capital
  rw [(isDigest.2 letter member).2] at isUpper
  cases isUpper

theorem IsDigest.alphanumeric (isDigest : IsDigest hash) : alphanumeric hash = hash := by
  rw [Naming.alphanumeric, List.filter_eq_self.mpr fun digit member => (isDigest.2 digit member).1,
    String.ofList_toList]

/-- The name of a slot has a capital letter. -/
theorem capital_slotName (slot : Asset.Slot) : slot.name.toList.any Char.isUpper = true := by
  cases slot <;> decide

theorem alphanumeric_slotName (slot : Asset.Slot) : alphanumeric slot.name = slot.name := by
  cases slot <;> decide

theorem length_slotName_le (slot : Asset.Slot) : slot.name.toList.length ≤ 12 := by
  cases slot <;> decide

/-- Neither does the word before a digest end in it, nor does it end in the name of a slot. -/
theorem IsDigest.withoutEchoes (isDigest : IsDigest hash) (slot : Asset.Slot) :
    withoutEchoes none [assetParametersComponent, hash, slot.name] =
      [assetParametersComponent, hash, slot.name] := by
  have notEchoed : endsIn assetParametersComponent hash = false := by
    by_contra echoed
    rw [Bool.not_eq_false, endsIn, List.isSuffixOf_iff_suffix] at echoed
    have short := echoed.length_le
    rw [isDigest.1] at short
    exact absurd short (by decide)
  have slotNotEchoed : endsIn hash slot.name = false := by
    by_contra echoed
    rw [Bool.not_eq_false, endsIn, List.isSuffixOf_iff_suffix] at echoed
    obtain ⟨letter, member, isUpper⟩ := List.any_eq_true.mp (capital_slotName slot)
    rw [(isDigest.2 letter (echoed.subset member)).2] at isUpper
    cases isUpper
  rw [Naming.withoutEchoes, Naming.withoutEchoes, notEchoed, if_neg Bool.false_ne_true,
    Naming.withoutEchoes, slotNotEchoed, if_neg Bool.false_ne_true, Naming.withoutEchoes]

/-- No component in the name of a slot is another word with a capital letter. -/
theorem IsDigest.filter_ne (isDigest : IsDigest hash) (slot : Asset.Slot) {word : String}
    (capital : word.toList.any Char.isUpper = true)
    (noWord : assetParametersComponent ≠ word) (noSlot : slot.name ≠ word) :
    [assetParametersComponent, hash, slot.name].filter (· ≠ word) =
      [assetParametersComponent, hash, slot.name] := by
  simp [noWord, noSlot, isDigest.ne capital]

/-- The readable part of the name of a slot spells out the hash and the slot. -/
theorem readablePart_asset (isDigest : IsDigest hash) (slot : Asset.Slot) :
    (readablePart [assetParametersComponent, hash, slot.name]).toList =
      assetParametersComponent.toList ++ (hash.toList ++ slot.name.toList) := by
  have word : alphanumeric assetParametersComponent = assetParametersComponent := by decide
  have short : (assetParametersComponent.toList ++ (hash.toList ++ slot.name.toList)).length ≤
      readableLimit := by
    have wordLength : assetParametersComponent.toList.length = 15 := by decide
    have slotShort := length_slotName_le slot
    rw [List.length_append, List.length_append, isDigest.1, readableLimit]
    omega
  have joined : (String.join [assetParametersComponent, hash, slot.name]).toList =
      assetParametersComponent.toList ++ (hash.toList ++ slot.name.toList) := by
    simp [String.join]
  rw [readablePart, isDigest.withoutEchoes, isDigest.filter_ne slot (by decide)
    (by decide) (by cases slot <;> decide), List.map_cons, List.map_cons,
    List.map_cons, List.map_nil, word, isDigest.alphanumeric, alphanumeric_slotName, prefixOf,
    String.toList_ofList, joined, List.take_of_length_le short]

theorem assetParameterName_eq (isDigest : IsDigest hash) (slot : Asset.Slot) :
    (assetParameterName hash slot.name).toList =
      (assetParametersComponent.toList ++ (hash.toList ++ slot.name.toList)) ++
        (idSuffix (assetText hash slot)).toList := by
  have allVisible : visible [assetParametersComponent, hash, slot.name] =
      [assetParametersComponent, hash, slot.name] :=
    isDigest.filter_ne slot (by decide) (by decide)
      (by cases slot <;> decide)
  rw [assetParameterName, uniqueId_of_hashed (hashedText?_asset hash slot), allVisible,
    String.toList_append, readablePart_asset isDigest]

/-- No two slots of assets that are known by digests are named alike. -/
theorem assetParameterName_injective (isDigest : IsDigest hash) (isDigestToo : IsDigest second)
    (same : assetParameterName hash slot.name = assetParameterName second last.name) :
    hash = second ∧ slot = last := by
  have sameLetters := congrArg String.toList same
  rw [assetParameterName_eq isDigest, assetParameterName_eq isDigestToo] at sameLetters
  have sameLength : (idSuffix (assetText hash slot)).toList.length =
      (idSuffix (assetText second last)).toList.length := by
    rw [String.length_toList, String.length_toList, length_idSuffix, length_idSuffix]
  have readable := List.append_cancel_left (List.append_inj' sameLetters sameLength).1
  obtain ⟨sameHash, sameSlot⟩ := List.append_inj readable (isDigest.1.trans isDigestToo.1.symm)
  refine ⟨String.ext_iff.mpr sameHash, ?_⟩
  cases slot <;> cases last <;> first | rfl | exact absurd sameSlot (by decide)

end Naming

namespace Asset.Registry

variable {registry first second : Registry} {number : NodeId ≃ NodeId} {top : NodeId}
  {record : Record} {hash : ContentHash}

/-- All assets are known by digests. -/
def Digested (registry : Registry) : Prop :=
  ∀ top, ∀ record ∈ registry.assetsOf top, Naming.IsDigest record.hash

theorem Digested.register (digested : registry.Digested) (isDigest : Naming.IsDigest record.hash) :
    (registry.register top record).1.Digested := by
  intro other found member
  rw [assetsOf_register] at member
  split at member
  · rcases List.mem_append.mp member with early | last
    · exact digested top found early
    · rwa [List.mem_singleton.mp last]
  · exact digested other found member

/-- Where no hash is listed twice, an asset is listed exactly if it is found. -/
theorem Once.mem_assetsOf (once : registry.Once) :
    record ∈ registry.assetsOf top ↔ registry.find? top record.hash = some record := by
  constructor
  · intro member
    cases known : registry.find? top record.hash with
    | none => simpa using List.find?_eq_none.mp known record member
    | some found =>
      have only : record ∈ (registry.assetsOf top).filter (fun other => other.hash = record.hash) :=
        List.mem_filter.mpr ⟨member, by simp⟩
      rw [once.filter_eq known, List.mem_singleton] at only
      rw [only]
  · intro known
    exact List.mem_of_find?_eq_some known

/-- The parameters that are declared for an asset. -/
def declared (record : Record) : List (String × ParameterDecl) :=
  record.packaging.slots.map (fun slot =>
    (record.parameterName slot,
      { ParameterDecl.string with description := some (slot.description record.hash) }))

theorem declared_eq {record other : Record} (sameHash : other.hash = record.hash)
    (samePackaging : other.packaging = record.packaging) : declared other = declared record := by
  simp only [declared, Record.parameterName, sameHash, samePackaging]

/-- Two registries that know content of the same hashes, published alike. -/
def Renumbers (number : NodeId ≃ NodeId) (first second : Registry) : Prop :=
  ∀ top hash, (second.find? (number top) hash).map Record.packaging =
    (first.find? top hash).map Record.packaging

namespace Renumbers

variable (renumbers : first.Renumbers number second)
include renumbers

theorem register (stack : NodeId) {record other : Record} (sameHash : record.hash = other.hash)
    (samePackaging : record.packaging = other.packaging) :
    (first.register stack record).1.Renumbers number
      (second.register (number stack) other).1 := by
  intro top hash
  rw [find?_register, find?_register, Option.map_or, Option.map_or, renumbers]
  congr 1
  simp only [number.apply_eq_iff_eq, sameHash]
  split
  · simp [samePackaging]
  · rfl

theorem symm : second.Renumbers number.symm first := by
  intro top hash
  rw [← renumbers, number.apply_symm_apply]

/-- An asset of one is an asset of the other, found elsewhere at most. -/
theorem exists_mem (once : first.Once) (onceToo : second.Once)
    (member : record ∈ first.assetsOf top) :
    ∃ other ∈ second.assetsOf (number top), other.hash = record.hash ∧
      other.packaging = record.packaging := by
  have known := renumbers top record.hash
  rw [once.mem_assetsOf.mp member, Option.map_some] at known
  obtain ⟨other, found, samePackaging⟩ := Option.map_eq_some_iff.mp known
  have sameHash := List.find?_some found
  rw [decide_eq_true_eq] at sameHash
  exact ⟨other, onceToo.mem_assetsOf.mpr (sameHash ▸ found), sameHash, samePackaging⟩

/-- Stacks declare the same parameters for their assets. -/
theorem parametersOf (once : first.Once) (onceToo : second.Once) (digested : first.Digested) :
    second.parametersOf (number top) = first.parametersOf top := by
  have included : ∀ {number : NodeId ≃ NodeId} {first second : Registry} {top : NodeId},
      first.Renumbers number second → first.Once → second.Once →
      ∀ entry ∈ (first.assetsOf top).flatMap declared,
        entry ∈ (second.assetsOf (number top)).flatMap declared := by
    intro number first second top renumbers once onceToo entry member
    obtain ⟨record, listed, inRecord⟩ := List.mem_flatMap.mp member
    obtain ⟨other, listedToo, sameHash, samePackaging⟩ := renumbers.exists_mem once onceToo listed
    refine List.mem_flatMap.mpr ⟨other, listedToo, ?_⟩
    rwa [declared_eq sameHash samePackaging]
  symm
  refine SortedMap.ofList_eq (fun entry => ⟨included renumbers once onceToo entry, ?_⟩) ?_
  · intro member
    have back := included renumbers.symm onceToo once entry member
    rwa [number.symm_apply_apply] at back
  · intro name declaration other member memberToo
    obtain ⟨record, listed, inRecord⟩ := List.mem_flatMap.mp member
    obtain ⟨recordToo, listedToo, inRecordToo⟩ := List.mem_flatMap.mp memberToo
    obtain ⟨slot, _, same⟩ := List.mem_map.mp inRecord
    obtain ⟨slotToo, _, sameToo⟩ := List.mem_map.mp inRecordToo
    cases same
    obtain ⟨sameName, rfl⟩ := Prod.mk.inj sameToo
    obtain ⟨sameHash, rfl⟩ := Naming.assetParameterName_injective
      (digested top recordToo listedToo) (digested top record listed) sameName
    rw [sameHash]

end Renumbers

end Asset.Registry

end StackSynth
