/-
This file compares trees that hold the same constructs under different numbers. What is asked of a
construct looks up the tree or down, and up there is the same under the other numbers, as is below
where children come in the same order; so the answers are the same up to the numbers in them, and
names and paths, which hold no numbers, are the same.
-/

import StackSynth.Proofs.Construct.Preorder
import StackSynth.Proofs.Construct.Resemblance
import StackSynth.Proofs.Deferred.Renumbering

namespace StackSynth

open Outcome

/-- The construct when every construct has another number. -/
def Construct.renumber (number : NodeId ≃ NodeId) : Construct → Construct
  | .resource content =>
    .resource { content with properties := Deferred.renumberMembers number content.properties }
  | .output spec => .output { spec with value := spec.value.renumber number }
  | other => other

/-- The construct in its place when every construct has another number. -/
def Node.renumber (number : NodeId ≃ NodeId) (node : Node) : Node :=
  ⟨node.id, node.parent.map number, node.construct.renumber number⟩

variable {number : NodeId ≃ NodeId}

@[simp]
theorem Construct.isStack_renumber (construct : Construct) :
    (construct.renumber number).isStack = construct.isStack := by
  cases construct <;> rfl

@[simp]
theorem Construct.isNestedStack_renumber (construct : Construct) :
    (construct.renumber number).isNestedStack = construct.isNestedStack := by
  cases construct <;> rfl

@[simp]
theorem Construct.kind_renumber (construct : Construct) :
    (construct.renumber number).kind = construct.kind := by
  cases construct <;> rfl

namespace Tree

/-- Two trees that hold the same constructs, under other numbers but in the same order. -/
structure Renumbers (number : NodeId ≃ NodeId) (first second : Tree) : Prop where
  root : number rootId = rootId
  wellFormed : first.WellFormed
  wellFormedToo : second.WellFormed
  nodes : ∀ node, second.get? (number node) = (first.get? node).map (Node.renumber number)
  children : ∀ node, second.children (number node) = (first.children node).map number

namespace Renumbers

variable {first second : Tree} {node ancestor stack : NodeId}
  (renumbers : first.Renumbers number second)
include renumbers

theorem number_eq_root : number node = rootId ↔ node = rootId := by
  rw [← renumbers.root, number.apply_eq_iff_eq, renumbers.root]

/-! ### One construct -/

theorem parent? : second.parent? (number node) = (first.parent? node).map number := by
  rw [Tree.parent?, Tree.parent?, renumbers.nodes]
  cases first.get? node <;> rfl

theorem isStack : second.isStack (number node) = first.isStack node := by
  rw [Tree.isStack, Tree.isStack, renumbers.nodes]
  cases first.get? node with
  | none => rfl
  | some found => exact Construct.isStack_renumber found.construct

theorem isNested : second.isNested (number node) = first.isNested node := by
  rw [Tree.isNested, Tree.isNested, renumbers.nodes]
  cases first.get? node with
  | none => rfl
  | some found => exact Construct.isNestedStack_renumber found.construct

theorem kind : second.kind (number node) = first.kind node := by
  rw [Tree.kind, Tree.kind, renumbers.nodes]
  cases first.get? node with
  | none => rfl
  | some found => exact Construct.kind_renumber found.construct

theorem find : Concur (fun one other => one.renumber number = other) (first.find node)
    (second.find (number node)) := by
  rw [Tree.find, Tree.find, renumbers.nodes]
  cases first.get? node with
  | none => exact .error _ _
  | some found => exact .ok rfl

/-! ### Upwards -/

/-- Looked at upwards, trees of the same constructs resemble each other everywhere. -/
theorem resembles : first.Resembles (fun _ => True) number second where
  ordered := renumbers.wellFormed.ordered
  orderedToo := renumbers.wellFormedToo.ordered
  root _ := renumbers.number_eq_root
  parents _ := renumbers.parent?
  closed _ _ := trivial
  ids _ := by
    rw [renumbers.nodes, Option.map_map]
    rfl
  areStacks _ := renumbers.isStack

theorem pathComponents : second.pathComponents (number node) = first.pathComponents node :=
  renumbers.resembles.pathComponents trivial

theorem path : second.path (number node) = first.path node := by
  rw [Tree.path, Tree.path, renumbers.pathComponents]

theorem uniqueId : second.uniqueId (number node) = first.uniqueId node := by
  rw [Tree.uniqueId, Tree.uniqueId, renumbers.pathComponents]

theorem componentsBelow :
    second.componentsBelow (number ancestor) (number node) =
      first.componentsBelow ancestor node := by
  have walk : ((first.ancestors node).map number).takeWhile (· ≠ number ancestor) =
      ((first.ancestors node).takeWhile (· ≠ ancestor)).map number := by
    rw [List.takeWhile_map]
    simp [Function.comp_def]
  rw [Tree.componentsBelow, Tree.componentsBelow, renumbers.resembles.ancestors trivial, walk,
    renumbers.resembles.idsOf fun _ _ => trivial]

theorem stackChain : second.stackChain (number node) = (first.stackChain node).map number :=
  renumbers.resembles.stackChain trivial

theorem stackOf? : second.stackOf? (number node) = (first.stackOf? node).map number :=
  renumbers.resembles.stackOf? trivial

theorem topLevelOf? : second.topLevelOf? (number node) = (first.topLevelOf? node).map number :=
  renumbers.resembles.topLevelOf? trivial

theorem parentStack? :
    second.parentStack? (number node) = (first.parentStack? node).map number :=
  renumbers.resembles.parentStack? trivial

/-! ### Names -/

theorem logicalId : second.logicalId (number node) = first.logicalId node := by
  rw [Tree.logicalId, Tree.logicalId, renumbers.parentStack?]
  cases first.parentStack? node with
  | none => rw [Option.map_none, renumbers.kind, renumbers.path]
  | some stack =>
    rw [Option.map_some]
    exact congrArg (fun components => Except.ok (Naming.uniqueId components))
      renumbers.componentsBelow

theorem embeddingPath :
    Concur (· = ·) (first.embeddingPath node) (second.embeddingPath (number node)) := by
  refine renumbers.find.bind ?_
  rintro ⟨id, parent, construct⟩ _ rfl
  cases parent with
  | none => exact .error _ _
  | some scope =>
    refine .ok ?_
    show first.pathComponents scope ++ _ = second.pathComponents (number scope) ++ _
    rw [renumbers.pathComponents]
    rfl

theorem embeddingId :
    Concur (· = ·) (first.embeddingId node) (second.embeddingId (number node)) := by
  refine renumbers.find.bind ?_
  rintro ⟨id, parent, construct⟩ _ rfl
  rw [renumbers.parentStack?]
  cases parent with
  | none => exact .error _ _
  | some scope =>
    cases first.parentStack? node with
    | none => exact .error _ _
    | some stack =>
      refine .ok (congrArg (fun above => Naming.uniqueId (above ++ embeddingComponents id)) ?_)
      show (if scope = stack then [] else _) = if number scope = number stack then [] else _
      rw [renumbers.componentsBelow]
      simp only [number.apply_eq_iff_eq]

theorem stackName : second.stackName (number node) = first.stackName node := by
  rw [Tree.stackName, Tree.stackName, renumbers.uniqueId, renumbers.nodes]
  cases first.get? node with
  | none => rfl
  | some found =>
    obtain ⟨id, parent, construct⟩ := found
    have atRoot : parent.map number = some rootId ↔ parent = some rootId := by
      cases parent with
      | none => simp
      | some above => simp [renumbers.number_eq_root]
    cases construct <;> simp only [Option.map_some, Node.renumber, Construct.renumber, atRoot]

theorem environment :
    Concur (· = ·) (first.environment node) (second.environment (number node)) := by
  rw [Tree.environment, Tree.environment, renumbers.topLevelOf?]
  cases first.topLevelOf? node with
  | none => exact .error _ _
  | some top =>
    rw [Option.map_some]
    dsimp only
    rw [renumbers.nodes]
    cases first.get? top with
    | none => exact .error _ _
    | some found =>
      obtain ⟨id, parent, construct⟩ := found
      cases construct <;> first | exact .ok rfl | exact .error _ _

/-! ### Downwards -/

/-- What a walk down the second tree meets is what the same walk meets in the first. -/
theorem below (descends descendsToo : NodeId → Bool)
    (same : ∀ node, descendsToo (number node) = descends node) :
    ∀ start, second.below descendsToo (number start) =
      (first.below descends start).map number := by
  intro start
  induction start using Tree.below.induct first with
  | case1 start inductionHypothesis =>
    cases enters : descends start with
    | false =>
      rw [below_of_not_descends enters, below_of_not_descends (by rw [same, enters]),
        List.map_singleton]
    | true =>
      rw [below_of_descends enters, below_of_descends (by rw [same, enters]),
        renumbers.children, List.map_cons, List.map_flatMap, List.flatMap_map]
      refine congrArg _ (List.flatMap_congr fun child isChild => ?_)
      exact inductionHypothesis ⟨child, isChild⟩

theorem preorder : second.preorder = first.preorder.map number := by
  have walk := renumbers.below (fun _ => true) (fun _ => true) (fun _ => rfl) rootId
  rwa [renumbers.root] at walk

theorem membersOf : second.membersOf (number stack) = (first.membersOf stack).map number := by
  have walk := renumbers.below (fun node => node = stack || !first.isStack node)
    (fun node => node = number stack || !second.isStack node)
    (fun node => by simp [renumbers.isStack]) stack
  rw [Tree.membersOf, Tree.membersOf, walk, List.filter_map]
  simp [Function.comp_def]

theorem allStacks : second.allStacks = first.allStacks.map number := by
  rw [Tree.allStacks, Tree.allStacks, renumbers.preorder]
  exact renumbers.resembles.filter_isStack fun _ _ => trivial

theorem topLevelStacks : second.topLevelStacks = first.topLevelStacks.map number := by
  rw [Tree.topLevelStacks, Tree.topLevelStacks, renumbers.allStacks, List.filter_map]
  simp [Function.comp_def, renumbers.isNested]

end Renumbers

end Tree

end StackSynth
