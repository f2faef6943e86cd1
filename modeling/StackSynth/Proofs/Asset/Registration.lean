/-
This file says what a registry holds after assets were registered one by one. Every stack keeps the
first asset of each content, in the order in which the contents were met on it, and what is
registered on other stacks does not concern it.
-/

import StackSynth.Proofs.Asset.Registry
import StackSynth.Proofs.Deployment.Accumulation

namespace StackSynth.Asset

/-! ### The assets of one stack -/

namespace Record

variable {kept records : List Record}

/-- The assets of a stack with one more, unless its content is there already. -/
def addFirst (kept : List Record) (record : Record) : List Record :=
  if record.hash ∈ kept.map Record.hash then kept else kept ++ [record]

/-- The first asset of each content. -/
def firsts (records : List Record) : List Record := records.foldl addFirst []

theorem map_hash_foldl_addFirst {met : List ContentHash}
    (known : kept.map Record.hash = met.eraseDups) :
    (records.foldl addFirst kept).map Record.hash = (met ++ records.map Record.hash).eraseDups := by
  induction records generalizing kept met with
  | nil =>
    rw [List.map_nil, List.append_nil]
    exact known
  | cons record rest inductionHypothesis =>
    rw [List.foldl_cons, List.map_cons, List.append_cons]
    refine inductionHypothesis ?_
    rw [addFirst, eraseDups_concat]
    by_cases isMet : record.hash ∈ met <;> simp [isMet, known]

/-- Contents are listed in the order in which they were first met. -/
theorem map_hash_firsts (records : List Record) :
    (firsts records).map Record.hash = (records.map Record.hash).eraseDups := by
  have nothing : ([] : List Record).map Record.hash = ([] : List ContentHash).eraseDups := rfl
  exact map_hash_foldl_addFirst nothing

theorem nodup_firsts (records : List Record) : ((firsts records).map Record.hash).Nodup := by
  rw [map_hash_firsts]
  exact nodup_eraseDups _

theorem find?_foldl_addFirst (hash : ContentHash) :
    (records.foldl addFirst kept).find? (fun record => record.hash = hash) =
      (kept ++ records).find? (fun record => record.hash = hash) := by
  induction records generalizing kept with
  | nil => rw [List.foldl_nil, List.append_nil]
  | cons record rest inductionHypothesis =>
    rw [List.foldl_cons, inductionHypothesis, addFirst]
    split
    · rename_i isOld
      rw [List.find?_append, List.find?_append]
      by_cases asked : record.hash = hash
      · -- an earlier asset of the content hides this one
        obtain ⟨first, member, sameHash⟩ := List.mem_map.mp isOld
        have isFound : (kept.find? (fun record => record.hash = hash)).isSome = true :=
          List.find?_isSome.mpr ⟨first, member, decide_eq_true (sameHash.trans asked)⟩
        rw [Option.or_of_isSome isFound, Option.or_of_isSome isFound]
      · rw [List.find?_cons_of_neg (by simpa using asked)]
    · rw [← List.append_cons]

/-- Under a hash stands what was registered first. -/
theorem find?_firsts (records : List Record) (hash : ContentHash) :
    (firsts records).find? (fun record => record.hash = hash) =
      records.find? (fun record => record.hash = hash) :=
  find?_foldl_addFirst hash

/-- A listed asset is the first of its content. -/
theorem find?_eq_some_of_mem_firsts {record : Record} (listed : record ∈ firsts records) :
    records.find? (fun other => other.hash = record.hash) = some record := by
  rw [← find?_firsts]
  obtain ⟨found, isFound⟩ := Option.isSome_iff_exists.mp (List.find?_isSome.mpr
    ⟨record, listed, decide_eq_true rfl⟩ :
      ((firsts records).find? (fun other => other.hash = record.hash)).isSome = true)
  have sameHash : found.hash = record.hash := by simpa using List.find?_some isFound
  rw [isFound, List.inj_on_of_nodup_map (nodup_firsts records)
    (List.mem_of_find?_eq_some isFound) listed sameHash]

end Record

/-! ### Any number of registrations -/

namespace Registry

variable {registry : Registry} {stack : NodeId}

/-- The registry with assets, each registered on a stack. -/
def registerAll (registry : Registry) (registrations : List (NodeId × Record)) : Registry :=
  registrations.foldl (fun registry entry => (registry.register entry.1 entry.2).1) registry

/-- What is registered on one stack among what is registered on all. -/
def registeredOn (stack : NodeId) (registrations : List (NodeId × Record)) : List Record :=
  (registrations.filter (fun entry => entry.1 = stack)).map (·.2)

theorem registerAll_append (front back : List (NodeId × Record)) :
    registry.registerAll (front ++ back) = (registry.registerAll front).registerAll back :=
  List.foldl_append

theorem registeredOn_cons_self {entry : NodeId × Record} (here : entry.1 = stack)
    (rest : List (NodeId × Record)) :
    registeredOn stack (entry :: rest) = entry.2 :: registeredOn stack rest := by
  rw [registeredOn, List.filter_cons_of_pos (by simpa using here), List.map_cons, ← registeredOn]

theorem registeredOn_cons_of_ne {entry : NodeId × Record} (apart : entry.1 ≠ stack)
    (rest : List (NodeId × Record)) :
    registeredOn stack (entry :: rest) = registeredOn stack rest := by
  rw [registeredOn, List.filter_cons_of_neg (by simpa using apart), ← registeredOn]

theorem find?_eq_none_iff {hash : ContentHash} :
    registry.find? stack hash = none ↔ hash ∉ (registry.assetsOf stack).map Record.hash := by
  rw [find?, List.find?_eq_none, List.mem_map]
  constructor
  · rintro absent ⟨record, member, same⟩
    exact absent record member (decide_eq_true same)
  · intro absent record member same
    exact absent ⟨record, member, of_decide_eq_true same⟩

theorem assetsOf_register_self (record : Record) :
    (registry.register stack record).1.assetsOf stack =
      Record.addFirst (registry.assetsOf stack) record := by
  rw [assetsOf_register, Record.addFirst]
  simp only [find?_eq_none_iff]
  by_cases isOld : record.hash ∈ (registry.assetsOf stack).map Record.hash <;> simp [isOld]

theorem assetsOf_register_of_ne {other : NodeId} (apart : stack ≠ other) (record : Record) :
    (registry.register other record).1.assetsOf stack = registry.assetsOf stack := by
  rw [assetsOf_register, if_neg (fun both => apart both.1)]

/-- A stack has the first asset of each content that is registered on it, and what is registered on
others does not concern it. -/
theorem assetsOf_registerAll (registrations : List (NodeId × Record)) (stack : NodeId) :
    (registry.registerAll registrations).assetsOf stack =
      (registeredOn stack registrations).foldl Record.addFirst (registry.assetsOf stack) := by
  induction registrations generalizing registry with
  | nil => rfl
  | cons entry rest inductionHypothesis =>
    rw [registerAll, List.foldl_cons, ← registerAll, inductionHypothesis]
    by_cases here : entry.1 = stack
    · rw [registeredOn_cons_self here, List.foldl_cons, here, assetsOf_register_self]
    · rw [registeredOn_cons_of_ne here, assetsOf_register_of_ne (Ne.symm here)]

/-- What an empty registry comes to hold. -/
theorem assetsOf_registerAll_empty (registrations : List (NodeId × Record)) (stack : NodeId) :
    (empty.registerAll registrations).assetsOf stack =
      Record.firsts (registeredOn stack registrations) :=
  assetsOf_registerAll registrations stack

end Registry

end StackSynth.Asset
