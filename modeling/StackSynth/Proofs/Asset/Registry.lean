/-
This file says what a registry knows of its assets. Under one hash a stack has the asset that was
registered first: a second one changes nothing, so whatever is found once is found ever after, and
no hash is listed twice. What a stack declares for its assets is a parameter for each of their
slots.
-/

import StackSynth.Asset.Registry

namespace StackSynth.Asset

/-! ### What a record declares -/

theorem Slot.name_injective {first second : Slot} (same : first.name = second.name) :
    first = second := by
  cases first <;> cases second <;> first
    | rfl
    | exact absurd same (by decide)

/-- What a deployer finds in a parameter, in the words of its description. -/
def Slot.purpose : Slot → String
  | .bucket => "S3 bucket for asset"
  | .versionedKey => "S3 key for asset version"
  | .artifactHash => "Artifact hash for asset"
  | .imageName => "ECR repository name and tag for asset"

/-- A description says what the parameter is for and then quotes the hash of the asset. -/
theorem Slot.description_eq (slot : Slot) (hash : ContentHash) :
    slot.description hash = slot.purpose ++ " \"" ++ hash ++ "\"" := by
  cases slot <;> rfl

/-- The parameter that a stack declares for a slot. -/
def Slot.parameter (slot : Slot) (hash : ContentHash) : ParameterDecl :=
  { ParameterDecl.string with description := some (slot.description hash) }

/-- A record names a parameter for each slot of its packaging, and for nothing else. -/
theorem Record.parameterNames_eq_some {record : Record} {key name : String} :
    record.parameterNames.get? key = some name ↔
      ∃ slot ∈ record.packaging.slots, key = slot.name ∧ name = record.parameterName slot := by
  have given : ∀ {name}, record.parameterNames.get? key = some name →
      ∃ slot ∈ record.packaging.slots, key = slot.name ∧ name = record.parameterName slot := by
    intro name known
    obtain ⟨slot, hasSlot, same⟩ := List.mem_map.mp (SortedMap.mem_of_get?_ofList known)
    obtain ⟨rfl, rfl⟩ := Prod.mk.inj same
    exact ⟨slot, hasSlot, rfl, rfl⟩
  refine ⟨given, ?_⟩
  rintro ⟨slot, hasSlot, rfl, rfl⟩
  have there : record.parameterNames.contains slot.name = true :=
    SortedMap.contains_ofList.mpr ⟨_, List.mem_map.mpr ⟨slot, hasSlot, rfl⟩⟩
  obtain ⟨name, known⟩ := SortedMap.contains_iff.mp there
  obtain ⟨other, _, sameName, rfl⟩ := given known
  rw [known, Slot.name_injective sameName]

theorem Record.get?_parameterNames {record : Record} {slot : Slot} :
    record.parameterNames.get? slot.name = some (record.parameterName slot) ↔
      slot ∈ record.packaging.slots := by
  rw [parameterNames_eq_some]
  constructor
  · rintro ⟨other, hasSlot, sameName, _⟩
    exact Slot.name_injective sameName ▸ hasSlot
  · exact fun hasSlot => ⟨slot, hasSlot, rfl, rfl⟩

namespace Registry

variable {registry : Registry} {stack other : NodeId} {record found : Record} {hash : ContentHash}

/-- A registration adds to the assets of its stack, unless they have the hash already. -/
theorem assetsOf_register (registry : Registry) (stack other : NodeId) (record : Record) :
    (registry.register stack record).1.assetsOf other =
      if other = stack ∧ registry.find? stack record.hash = none then
        registry.assetsOf stack ++ [record]
      else registry.assetsOf other := by
  rw [register]
  cases known : registry.find? stack record.hash with
  | some first => simp
  | none =>
    by_cases here : other = stack
    · subst here
      simp [assetsOf, SortedMap.get?_insert_self]
    · simp [assetsOf, SortedMap.get?_insert_of_ne here, here]

/-- What is registered is found under its hash, unless something was found there before. -/
theorem find?_register (registry : Registry) (stack other : NodeId) (record : Record)
    (hash : ContentHash) :
    (registry.register stack record).1.find? other hash =
      (registry.find? other hash).or
        (if other = stack ∧ record.hash = hash then some record else none) := by
  rw [find?, assetsOf_register]
  split
  · rename_i isNew
    obtain ⟨rfl, _⟩ := isNew
    rw [List.find?_append, ← find?]
    by_cases same : record.hash = hash <;> simp [same]
  · rename_i isOld
    rw [← find?]
    split
    · rename_i here
      obtain ⟨rfl, rfl⟩ := here
      cases known : registry.find? other record.hash with
      | none => exact absurd ⟨rfl, known⟩ isOld
      | some first => rfl
    · rw [Option.or_none]

/-- What is found stays found, whatever is registered. -/
theorem find?_register_of_some (known : registry.find? other hash = some found) :
    (registry.register stack record).1.find? other hash = some found := by
  rw [find?_register, known, Option.some_or]

/-- What is registered is found, or else what was registered under its hash before. -/
theorem exists_find?_register (registry : Registry) (stack : NodeId) (record : Record) :
    ∃ found, (registry.register stack record).1.find? stack record.hash = some found := by
  rw [find?_register, if_pos ⟨rfl, rfl⟩]
  cases registry.find? stack record.hash with
  | none => exact ⟨record, rfl⟩
  | some first => exact ⟨first, rfl⟩

/-! ### One asset for a hash -/

/-- No stack has two assets of one hash. -/
def Once (registry : Registry) : Prop :=
  ∀ stack, ((registry.assetsOf stack).map Record.hash).Nodup

theorem once_empty : empty.Once := fun _ => .nil

theorem Once.register (once : registry.Once) (stack : NodeId) (record : Record) :
    (registry.register stack record).1.Once := by
  intro other
  rw [assetsOf_register]
  split
  · rename_i isNew
    rw [List.map_append]
    refine List.nodup_append.mpr ⟨once stack, List.pairwise_singleton _ _, ?_⟩
    rintro old isOld _ isLast rfl
    obtain ⟨before, listed, sameHash⟩ := List.mem_map.mp isOld
    rw [List.map_singleton, List.mem_singleton] at isLast
    have absent := List.find?_eq_none.mp isNew.2 before listed
    simp [sameHash, isLast] at absent
  · exact once other

/-- What is found under a hash is all that the stack has under it. -/
theorem Once.filter_eq (once : registry.Once) (known : registry.find? stack hash = some found) :
    (registry.assetsOf stack).filter (fun record => record.hash = hash) = [found] := by
  obtain ⟨sameHash, before, after, split, others⟩ := List.find?_eq_some_iff_append.mp known
  have apart := once stack
  rw [split, List.map_append, List.map_cons] at apart
  have notBefore : before.filter (fun record => record.hash = hash) = [] :=
    List.filter_eq_nil_iff.mpr fun record member => by simpa using others record member
  have notAfter : after.filter (fun record => record.hash = hash) = [] := by
    refine List.filter_eq_nil_iff.mpr fun record member => ?_
    have different := (List.nodup_cons.mp (List.nodup_append.mp apart).2.1).1
    intro same
    refine different (List.mem_map.mpr ⟨record, member, ?_⟩)
    exact (of_decide_eq_true same).trans (of_decide_eq_true sameHash).symm
  rw [split, List.filter_append, notBefore, List.filter_cons, if_pos sameHash, notAfter]
  rfl

/-! ### Parameters -/

/-- A stack has a parameter for every slot of its assets. -/
theorem contains_parametersOf {slot : Slot} (listed : record ∈ registry.assetsOf stack)
    (hasSlot : slot ∈ record.packaging.slots) :
    (registry.parametersOf stack).contains (record.parameterName slot) = true :=
  SortedMap.contains_ofList.mpr ⟨_, List.mem_flatMap.mpr
    ⟨record, listed, List.mem_map.mpr ⟨slot, hasSlot, rfl⟩⟩⟩

/-- Every parameter is there for a slot. -/
theorem of_get?_parametersOf {name : String} {parameter : ParameterDecl}
    (known : (registry.parametersOf stack).get? name = some parameter) :
    ∃ record ∈ registry.assetsOf stack, ∃ slot ∈ record.packaging.slots,
      name = record.parameterName slot ∧ parameter = slot.parameter record.hash := by
  obtain ⟨record, listed, member⟩ := List.mem_flatMap.mp (SortedMap.mem_of_get?_ofList known)
  obtain ⟨slot, hasSlot, same⟩ := List.mem_map.mp member
  obtain ⟨rfl, rfl⟩ := Prod.mk.inj same
  exact ⟨record, listed, slot, hasSlot, rfl, rfl⟩

end Registry

end StackSynth.Asset
