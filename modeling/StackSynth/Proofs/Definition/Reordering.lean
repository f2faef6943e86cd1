/-
This file shows that definitions which list the same constructs in different orders build the same
application, under other numbers. Where a construct comes does not matter to whether it is admitted
and to what its values are, as long as it comes behind the construct around it; and where the
constructs in every scope come in the same order, the trees are walked in the same order.
-/

import StackSynth.Proofs.Definition.Completing

namespace StackSynth

open Outcome

/-! ### Numbers -/

/-- The place in the second list of what is at a place of the first one. -/
def relocate (first second : List String) (place : Nat) : Nat :=
  match first[place]? with
  | some path => second.idxOf path
  | none => place

section Relocate

variable {first second : List String} {path : String} {place : Nat}

theorem relocate_of_getElem? (atPlace : first[place]? = some path) :
    relocate first second place = second.idxOf path := by
  rw [relocate, atPlace]

theorem relocate_of_length_le (outside : first.length ≤ place) :
    relocate first second place = place := by
  rw [relocate, List.getElem?_eq_none outside]

/-- Going to the other list and back leads to where one started. -/
theorem relocate_relocate (nodup : first.Nodup) (same : first.Perm second) (place : Nat) :
    relocate second first (relocate first second place) = place := by
  rcases Nat.lt_or_ge place first.length with within | outside
  · have atPlace := List.getElem?_eq_getElem within
    have member : first[place] ∈ second := same.subset (List.getElem_mem within)
    rw [relocate_of_getElem? atPlace, relocate_of_getElem? (List.getElem?_idxOf member)]
    exact nodup.idxOf_getElem place within
  · rw [relocate_of_length_le outside, relocate_of_length_le (same.length_eq ▸ outside)]

/-- Places in two lists of the same. -/
def renumbering (nodup : first.Nodup) (same : first.Perm second) : NodeId ≃ NodeId where
  toFun := relocate first second
  invFun := relocate second first
  left_inv := relocate_relocate nodup same
  right_inv := relocate_relocate (same.nodup_iff.mp nodup) same.symm

end Relocate

namespace Definition

variable {surroundings : Surroundings} {app : Application} {scope other : Scope}
  {part all items : List Item} {item : Item}

theorem plainOf_append (outputs : List Item) :
    plainOf (plainOf items ++ outputsOf outputs) = plainOf items := by
  rw [plainOf, plainOf, outputsOf, List.filter_append, List.filter_filter, List.filter_filter]
  have none : (outputs.filter fun item => !item.isOutput && item.isOutput) = [] :=
    List.filter_eq_nil_iff.mpr fun item _ => by cases item.isOutput <;> simp
  simp only [none, List.append_nil, Bool.and_self]

theorem plainOf_plainOf : plainOf (plainOf items) = plainOf items := by
  rw [plainOf, plainOf, List.filter_filter]
  simp only [Bool.and_self]

/-- The constructs in the order in which they are added. -/
abbrev arranged (items : List Item) : List Item := plainOf items ++ outputsOf items

theorem arranged_perm : (arranged items).Perm items :=
  (List.perm_append_comm.trans (List.filter_append_perm Item.isOutput items))

/-- In the second round constructs have the places that they have at last. -/
theorem allPaths_arranged {before after : List Item} (split : items = before ++ after) :
    allPaths (arranged items) =
      allPaths (plainOf items ++ outputsOf before) ++ (outputsOf after).map Item.path := by
  have outputs : outputsOf items = outputsOf before ++ outputsOf after := by
    rw [split, outputsOf, outputsOf, outputsOf, List.filter_append]
  rw [arranged, outputs]
  simp only [allPaths, List.map_append, List.cons_append, List.append_assoc]

theorem getElem?_arranged {before after : List Item} (split : items = before ++ after)
    {path : String} {place : Nat}
    (atPlace : (allPaths (plainOf items ++ outputsOf before))[place]? = some path) :
    (allPaths (arranged items))[place]? = some path := by
  rw [allPaths_arranged split, List.getElem?_append_left (List.getElem?_eq_some_iff.mp atPlace).1]
  exact atPlace

/-- Scopes include one another by the places of paths. -/
theorem includes_relocate (holds : scope.Holds surroundings.Fits part)
    (holdsToo : other.Holds surroundings.Fits all)
    (closed : ∀ item ∈ part, item.scope ∈ allPaths (plainOf part))
    (shared : ∀ item ∈ plainOf part, item ∈ all) :
    Scope.Includes surroundings (relocate (allPaths part) (allPaths all)) part all scope other where
  holds := holds
  holdsToo := holdsToo
  closed := closed
  shared := shared
  numbers path member node knows := by
    have inAll : path ∈ allPaths all := by
      rcases mem_allPaths.mp member with rfl | ⟨item, listed, rfl⟩
      · exact List.mem_cons_self
      · exact mem_allPaths.mpr (.inr ⟨item, shared item listed, rfl⟩)
    rw [relocate_of_getElem? ((holds.known path node).mp knows), holdsToo.known]
    exact List.getElem?_idxOf inAll

/-! ### Definitions of the same constructs -/

/-- Every construct comes behind the construct around it. -/
def ParentsFirst (definition : Definition) : Prop :=
  definition.constructs.Pairwise fun earlier later => earlier.scope ≠ later.path

/-- Two definitions of the same constructs that list in the same order the outputs of every scope,
and all else in it. -/
structure Reorders (first second : Definition) : Prop where
  same : first.constructs.Perm second.constructs
  parentsFirst : first.ParentsFirst
  parentsFirstToo : second.ParentsFirst
  siblings : ∀ scope isOutput,
    first.constructs.filter (fun item => item.scope = scope ∧ item.isOutput = isOutput) =
      second.constructs.filter (fun item => item.scope = scope ∧ item.isOutput = isOutput)

namespace Reorders

variable {first second : Definition}

theorem symm (reorders : first.Reorders second) : second.Reorders first where
  same := reorders.same.symm
  parentsFirst := reorders.parentsFirstToo
  parentsFirstToo := reorders.parentsFirst
  siblings scope isOutput := (reorders.siblings scope isOutput).symm

variable (reorders : first.Reorders second)
include reorders

theorem plain : (plainOf first.constructs).Perm (plainOf second.constructs) :=
  reorders.same.filter _

theorem paths : (allPaths (arranged first.constructs)).Perm
    (allPaths (arranged second.constructs)) :=
  (((reorders.plain).append (reorders.same.filter _)).map Item.path).cons ""

theorem mem_paths {path : String} :
    path ∈ allPaths (plainOf first.constructs) ↔ path ∈ allPaths (plainOf second.constructs) :=
  ((reorders.plain.map Item.path).cons "").mem_iff

theorem enclosed (enclosed : first.Enclosed) : second.Enclosed := fun item listed =>
  reorders.mem_paths.mp (enclosed item (reorders.same.mem_iff.mpr listed))

/-! ### Values in another order -/

/-- The numbers in the second application of the constructs of the first. -/
def number (nodup : (allPaths (arranged first.constructs)).Nodup) : NodeId ≃ NodeId :=
  renumbering nodup reorders.paths

theorem number_of_getElem? {nodup : (allPaths (arranged first.constructs)).Nodup} {path : String}
    {node : NodeId} (atNode : (allPaths (arranged first.constructs))[node]? = some path) :
    reorders.number nodup node = (allPaths (arranged second.constructs)).idxOf path :=
  relocate_of_getElem? atNode

/-- At any time of the second round, expressions see the same in both orders. -/
theorem shows (nodup : (allPaths (arranged first.constructs)).Nodup) (enclosed : first.Enclosed)
    (sees : first.Sees surroundings scope) (seesToo : second.Sees surroundings other) :
    scope.Shows (reorders.number nodup) other := by
  obtain ⟨before, after, split, holds⟩ := sees
  obtain ⟨beforeToo, afterToo, splitToo, holdsToo⟩ := seesToo
  refine Scope.Includes.shows ⟨holds, holdsToo, ?_, ?_, ?_⟩
  · intro item listed
    rw [plainOf_append]
    refine enclosed item ?_
    rcases List.mem_append.mp listed with plain | output
    · exact (mem_plainOf.mp plain).1
    · rw [split]
      exact List.mem_append_left _ (mem_outputsOf.mp output).1
  · intro item listed
    rw [plainOf_append] at listed
    exact List.mem_append_left _ (reorders.plain.mem_iff.mp listed)
  · intro path listed node knows
    rw [plainOf_append, reorders.mem_paths] at listed
    have listedToo : path ∈ allPaths (plainOf second.constructs ++ outputsOf beforeToo) := by
      rw [allPaths, List.map_append, ← List.cons_append]
      exact List.mem_append_left _ listed
    have atNode := getElem?_arranged split ((holds.known path node).mp knows)
    rw [reorders.number_of_getElem? atNode, allPaths_arranged splitToo,
      List.idxOf_append_of_mem listedToo, holdsToo.known]
    exact List.getElem?_idxOf listedToo

/-- What has a value in one order has a value in the other. -/
theorem evaluates {seen : Construct} (nodup : (allPaths (arranged first.constructs)).Nodup)
    (enclosed : first.Enclosed)
    (realizes : surroundings.Realizes (first.Sees surroundings) item seen)
    (seesToo : second.Sees surroundings other) : other.Evaluates item := by
  rw [Scope.Evaluates]
  cases realizes with
  | resource content sees evaluates =>
    rw [content]
    exact ⟨_, (reorders.shows nodup enclosed sees seesToo).memberValues evaluates⟩
  | output content sees evaluates =>
    rw [content]
    exact ⟨_, (reorders.shows nodup enclosed sees seesToo).agrees _ _ _ evaluates⟩
  | other noResource makes =>
    split
    · rename_i content
      exact absurd content (noResource _ _ _)
    · rename_i content
      have plain := makes.isOutput
      rw [Item.isOutput, content] at plain
      cases plain
    · trivial

/-! ### Building in another order -/

theorem mem_arranged (listed : item ∈ second.constructs) :
    item ∈ arranged first.constructs :=
  arranged_perm.mem_iff.mpr (reorders.same.mem_iff.mpr listed)

section Progress

variable {final : Scope} {before after : List Item} (enclosed : first.Enclosed)
  (stage : first.Stage surroundings first.constructs final)
include enclosed stage

/-- The scope of a construct is there when its turn comes. -/
theorem scope_listed (split : second.constructs = before ++ item :: after) :
    item.scope ∈ allPaths (plainOf before) := by
  have listed : item ∈ second.constructs := by
    rw [split]
    exact List.mem_append_right _ List.mem_cons_self
  have inFirst := reorders.same.mem_iff.mpr listed
  rcases mem_allPaths.mp (enclosed item inFirst) with isRoot | ⟨parent, isPlain, samePath⟩
  · rw [isRoot]
    exact List.mem_cons_self
  · obtain ⟨parentInFirst, plain⟩ := mem_plainOf.mp isPlain
    have parentListed := reorders.same.mem_iff.mp parentInFirst
    rw [split] at parentListed
    rcases List.mem_append.mp parentListed with early | late
    · exact mem_allPaths.mpr (.inr ⟨parent, mem_plainOf.mpr ⟨early, plain⟩, samePath⟩)
    · rcases List.mem_cons.mp late with rfl | later
      · exact absurd samePath.symm (stage.scope_ne_path (List.mem_append_left _ isPlain))
      · have ordered := reorders.parentsFirstToo
        rw [ParentsFirst, split] at ordered
        have behind := (List.pairwise_cons.mp (List.pairwise_append.mp ordered).2.1).1 parent later
        exact absurd samePath.symm behind

/-- A turn of the first round can be made. -/
theorem exists_declare (split : second.constructs = before ++ item :: after)
    (holds : scope.Holds surroundings.Makes (plainOf before)) :
    ∃ grown, declare surroundings scope item = .ok grown := by
  have listed : item ∈ second.constructs := by
    rw [split]
    exact List.mem_append_right _ List.mem_cons_self
  have inFinal := reorders.mem_arranged listed
  obtain ⟨node, knows⟩ := stage.known_item inFinal
  obtain ⟨_, construct, _, settles, place⟩ := stage.placed item inFinal node knows
  obtain ⟨around, atScope⟩ :=
    holds.exists_node (reorders.scope_listed enclosed stage split)
  cases isOutput : item.isOutput with
  | true =>
    exact ⟨scope, (declare_output isOutput).mpr
      ⟨(stage.usableId inFinal).1, ⟨around, atScope⟩, rfl⟩⟩
  | false =>
    obtain ⟨made, makes⟩ := settles.fits.exists_made isOutput
    have included : Scope.Includes surroundings (relocate (allPaths (plainOf before))
        (allPaths (arranged first.constructs))) (plainOf before)
        (arranged first.constructs) scope final := by
      refine includes_relocate (holds.mono fun _ _ _ makes => makes.fits)
        (stage.mono fun _ _ _ settles => settles.fits) ?_ ?_
      · intro other member
        obtain ⟨aroundOther, atScopeOther⟩ := holds.exists_scope member
        rw [plainOf_plainOf]
        exact holds.mem_allPaths_of_known atScopeOther
      · intro other member
        rw [plainOf_plainOf] at member
        refine reorders.mem_arranged ?_
        rw [split]
        exact List.mem_append_left _ (mem_plainOf.mp member).1
    have isNew : item ∉ plainOf before := by
      intro member
      have nodup := reorders.plain.nodup_iff.mp stage.nodup_plain
      exact not_mem_before nodup split isOutput (mem_plainOf.mp member).1
    have subset : plainOf before ⊆ arranged first.constructs := by
      intro other member
      refine reorders.mem_arranged ?_
      rw [split]
      exact List.mem_append_left _ (mem_plainOf.mp member).1
    have scopeListed : item.scope ∈ allPaths (plainOf (plainOf before)) := by
      rw [plainOf_plainOf]
      exact reorders.scope_listed enclosed stage split
    exact Definition.exists_declare holds.wellFormed atScope makes
      (included.admits inFinal isNew subset scopeListed atScope (.made makes rfl))

/-- A turn of the second round can be made. -/
theorem exists_complete (split : second.constructs = before ++ item :: after)
    (stageToo : second.Stage surroundings before scope) :
    ∃ grown, complete scope item = .ok grown := by
  have listed : item ∈ second.constructs := by
    rw [split]
    exact List.mem_append_right _ List.mem_cons_self
  have inFirst := reorders.same.mem_iff.mpr listed
  have inFinal := reorders.mem_arranged listed
  obtain ⟨node, knows⟩ := stage.known_item inFinal
  obtain ⟨_, construct, _, settles, _⟩ := stage.placed item inFinal node knows
  refine stageToo.exists_complete split ?_ fun isOutput => ?_
  · exact reorders.evaluates stage.nodup enclosed (settles.1 inFirst) (stageToo.sees split)
  · have enclosedToo := reorders.enclosed enclosed
    have inSecond : ∀ other ∈ plainOf second.constructs ++ outputsOf before,
        other ∈ second.constructs := by
      intro other member
      rcases List.mem_append.mp member with plain | output
      · exact (mem_plainOf.mp plain).1
      · rw [split]
        exact List.mem_append_left _ (mem_outputsOf.mp output).1
    have included : Scope.Includes surroundings
        (relocate (allPaths (plainOf second.constructs ++ outputsOf before))
          (allPaths (arranged first.constructs)))
        (plainOf second.constructs ++ outputsOf before) (arranged first.constructs) scope
        final := by
      refine includes_relocate (stageToo.mono fun _ _ _ settles => settles.fits)
        (stage.mono fun _ _ _ settles => settles.fits) ?_ ?_
      · intro other member
        rw [plainOf_append]
        exact enclosedToo other (inSecond other member)
      · intro other member
        rw [plainOf_append] at member
        exact reorders.mem_arranged (mem_plainOf.mp member).1
    have isNew : item ∉ plainOf second.constructs ++ outputsOf before := by
      intro member
      have nodup := (arranged_perm.trans reorders.same).nodup_iff.mp stage.nodup_items
      rcases List.mem_append.mp member with plain | output
      · exact absurd ((mem_plainOf.mp plain).2.symm.trans isOutput) Bool.noConfusion
      · rw [split] at nodup
        exact (List.nodup_append.mp nodup).2.2 item (mem_outputsOf.mp output).1 item
          List.mem_cons_self rfl
    have scopeListed : item.scope ∈ allPaths (plainOf second.constructs) :=
      enclosedToo item listed
    have scopeInPart : item.scope ∈ allPaths (plainOf second.constructs ++ outputsOf before) := by
      rw [allPaths, List.map_append, ← List.cons_append]
      exact List.mem_append_left _ scopeListed
    obtain ⟨around, atScope⟩ := stageToo.exists_node scopeInPart
    refine ⟨around, atScope, fun spec => included.admits inFinal isNew
      (fun other member => reorders.mem_arranged (inSecond other member)) ?_ atScope
      (.output spec isOutput)⟩
    rwa [plainOf_append]

end Progress

/-- What can be built in one order can be built in the other. -/
theorem exists_build (built : first.build surroundings = .ok app) :
    ∃ other, second.build surroundings = .ok other := by
  obtain ⟨final, _, enclosed, stage⟩ := stage_build built
  have firstRound : ∃ declared,
      second.constructs.foldlM (declare surroundings) .empty = .ok declared ∧
        declared.Holds surroundings.Makes (plainOf second.constructs) := by
    refine exists_foldlM_invariant
      (fun before (scope : Scope) => scope.Holds surroundings.Makes (plainOf before)) ?_
      Scope.holds_empty
    intro before item after scope split holds
    obtain ⟨grown, turn⟩ := reorders.exists_declare enclosed stage split holds
    exact ⟨grown, turn, (holds_declare holds turn).1⟩
  obtain ⟨declared, declares, holds⟩ := firstRound
  have secondRound : ∃ completed,
      second.constructs.foldlM complete declared = .ok completed ∧
        second.Stage surroundings second.constructs completed := by
    refine exists_foldlM_invariant (second.Stage surroundings) ?_ (stage_of_holds holds)
    intro before item after scope split stageToo
    obtain ⟨grown, turn⟩ := reorders.exists_complete enclosed stage split stageToo
    exact ⟨grown, turn, stageToo.complete split turn⟩
  obtain ⟨completed, completes, _⟩ := secondRound
  exact ⟨completed.app, bind_eq_ok.mpr ⟨declared, declares,
    bind_eq_ok.mpr ⟨completed, completes, rfl⟩⟩⟩

end Reorders

end Definition

end StackSynth
