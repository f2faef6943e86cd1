/-
This file compares scopes that hold constructs of one definition, each in an order of its own, and
one of them perhaps only some of what the other holds. Constructs have the same place in both, by
their paths, and but for values they are the same; so expressions see the same in both, and what one
scope holds the other admits, as soon as the construct around it is there.
-/

import StackSynth.Proofs.Construct.Resemblance
import StackSynth.Proofs.Definition.Arrangement
import StackSynth.Proofs.Definition.Evaluation

namespace StackSynth

open Outcome

theorem Construct.needsStack_of_face {construct seen : Construct}
    (same : seen.face = construct.face) : seen.needsStack = construct.needsStack := by
  cases construct <;> cases seen <;> first | rfl | cases same

theorem Construct.isOutput_of_face {construct seen : Construct}
    (same : seen.face = construct.face) : seen.isOutput = construct.isOutput := by
  cases construct <;> cases seen <;> first | rfl | cases same

theorem Construct.options_of_face {construct seen : Construct} {options : StackOptions}
    (same : seen.face = construct.face) (shape : construct = .topLevelStack options) :
    seen = .topLevelStack options := by
  subst shape
  cases seen <;> first | exact same | cases same

namespace Definition

/-! ### What becomes of what is written down -/

/-- The construct of an asset, if its content can be identified. -/
def Surroundings.asset? (surroundings : Surroundings) (source : Asset.Source) : Option Construct :=
  (surroundings.bundler source).toOption.map (.asset · source.packaging)

/-- The construct that the first round makes. There is none for outputs, nor for assets whose
content cannot be identified. -/
def Surroundings.made? (surroundings : Surroundings) : Content → Option Construct
  | .group => some .group
  | .stack options => some (.topLevelStack options)
  | .nestedStack => some .nestedStack
  | .resource type attributes _ => some (.resource ⟨type, [], attributes⟩)
  | .parameter declaration => some (.parameter declaration)
  | .output _ _ _ => none
  | .fileAsset source exclude => surroundings.asset? (surroundings.fileSource source exclude)
  | .imageAsset image => surroundings.asset? (surroundings.imageSource image)

/-- A construct is of what is written down, whatever its values. -/
inductive Surroundings.Fits (surroundings : Surroundings) (item : Item) : Construct → Prop where
  | output (spec : OutputSpec) (isOutput : item.isOutput = true) :
    Fits surroundings item (.output spec)
  | made {construct made : Construct} (makes : surroundings.made? item.content = some made)
    (same : construct.face = made.face) : Fits surroundings item construct

variable {surroundings : Surroundings} {item : Item} {construct seen : Construct}

theorem Surroundings.made?_of_isOutput (isOutput : item.isOutput = true) :
    surroundings.made? item.content = none := by
  rw [Item.isOutput] at isOutput
  split at isOutput
  · rename_i shape
    rw [shape]
    rfl
  · cases isOutput

theorem Surroundings.isOutput_of_made? {content : Content}
    (makes : surroundings.made? content = some construct) : construct.isOutput = false := by
  have ofAsset : ∀ {source}, surroundings.asset? source = some construct →
      construct.isOutput = false := by
    intro source isAsset
    obtain ⟨hash, _, rfl⟩ := Option.map_eq_some_iff.mp isAsset
    rfl
  cases content <;> first | exact ofAsset makes | cases makes; rfl | cases makes

namespace Surroundings.Fits

theorem isOutput (fits : surroundings.Fits item construct) :
    construct.isOutput = item.isOutput := by
  cases fits with
  | output spec isOutput => rw [isOutput]; rfl
  | made makes same =>
    rw [Construct.isOutput_of_face same, isOutput_of_made? makes]
    cases isOutput : item.isOutput with
    | false => rfl
    | true =>
      rw [made?_of_isOutput isOutput] at makes
      cases makes

theorem exists_made (fits : surroundings.Fits item construct) (plain : item.isOutput = false) :
    ∃ made, surroundings.made? item.content = some made := by
  cases fits with
  | output spec isOutput => exact absurd (isOutput.symm.trans plain) Bool.noConfusion
  | made makes same => exact ⟨_, makes⟩

/-- But for outputs, all constructs of what is written down show the same face. -/
theorem face_eq (fits : surroundings.Fits item construct) (fitsToo : surroundings.Fits item seen)
    (plain : item.isOutput = false) : seen.face = construct.face := by
  cases fits with
  | output spec isOutput => exact absurd (isOutput.symm.trans plain) Bool.noConfusion
  | made makes same =>
    cases fitsToo with
    | output spec isOutput => exact absurd (isOutput.symm.trans plain) Bool.noConfusion
    | made makesToo sameToo =>
      rw [makes] at makesToo
      cases makesToo
      exact sameToo.trans same.symm

theorem needsStack_eq (fits : surroundings.Fits item construct)
    (fitsToo : surroundings.Fits item seen) : seen.needsStack = construct.needsStack := by
  cases isOutput : item.isOutput with
  | false => exact Construct.needsStack_of_face (fits.face_eq fitsToo isOutput)
  | true =>
    have ofOutput : ∀ {construct}, surroundings.Fits item construct →
        construct.needsStack = true := by
      intro construct fits
      have isOutputToo := fits.isOutput.trans isOutput
      cases construct <;> first | rfl | cases isOutputToo
    rw [ofOutput fits, ofOutput fitsToo]

theorem options_eq {options : StackOptions} (fits : surroundings.Fits item construct)
    (fitsToo : surroundings.Fits item seen) (shape : construct = .topLevelStack options) :
    seen = .topLevelStack options := by
  have plain : item.isOutput = false := by
    rw [← fits.isOutput, shape]
    rfl
  exact Construct.options_of_face (fits.face_eq fitsToo plain) shape

end Surroundings.Fits

/-! ### What two scopes have in common -/

/-- The constructs but for outputs. -/
def plainOf (items : List Item) : List Item := items.filter (fun item => !item.isOutput)

theorem mem_plainOf {items : List Item} :
    item ∈ plainOf items ↔ item ∈ items ∧ item.isOutput = false := by
  rw [plainOf, List.mem_filter, Bool.not_eq_true']

namespace Scope

/-- The first scope holds only what the second one holds, but for outputs, and nothing stands in an
output; `number` leads from the numbers of one to those of the other. -/
structure Includes (surroundings : Surroundings) (number : NodeId → NodeId)
    (part all : List Item) (first second : Scope) : Prop where
  holds : first.Holds surroundings.Fits part
  holdsToo : second.Holds surroundings.Fits all
  closed : ∀ item ∈ part, item.scope ∈ allPaths (plainOf part)
  shared : ∀ item ∈ plainOf part, item ∈ all
  numbers : ∀ path ∈ allPaths (plainOf part), ∀ node, first.paths.get? path = some node →
    second.paths.get? path = some (number node)

/-- A construct of a scope, no output. -/
def Plain (part : List Item) (scope : Scope) (node : NodeId) : Prop :=
  ∃ path ∈ allPaths (plainOf part), scope.paths.get? path = some node

namespace Includes

variable {number : NodeId → NodeId} {part all : List Item} {first second : Scope}
  {node around : NodeId} (includes : Includes surroundings number part all first second)
include includes

theorem number_root : number Tree.rootId = Tree.rootId := by
  have knowsToo := includes.numbers "" List.mem_cons_self _ includes.holds.known_root
  rw [includes.holdsToo.known_root] at knowsToo
  exact (Option.some.inj knowsToo).symm

theorem root_iff (plain : Plain part first node) :
    number node = Tree.rootId ↔ node = Tree.rootId := by
  obtain ⟨path, member, knows⟩ := plain
  constructor
  · intro atRoot
    have knowsToo := includes.numbers path member node knows
    rw [atRoot] at knowsToo
    rw [includes.holdsToo.path_unique knowsToo includes.holdsToo.known_root,
      includes.holds.known_root] at knows
    exact (Option.some.inj knows).symm
  · rintro rfl
    exact includes.number_root

/-- Where constructs but for outputs stand in both scopes. -/
theorem places (plain : Plain part first node) (notRoot : node ≠ Tree.rootId) :
    ∃ item around construct seen, item.isOutput = false ∧
      Plain part first around ∧
      first.app.tree.get? node = some ⟨item.id, some around, construct⟩ ∧
      second.app.tree.get? (number node) = some ⟨item.id, some (number around), seen⟩ ∧
      surroundings.Fits item construct ∧ surroundings.Fits item seen := by
  obtain ⟨path, member, knows⟩ := plain
  rcases mem_allPaths.mp member with rfl | ⟨item, listed, rfl⟩
  · rw [includes.holds.known_root] at knows
    exact absurd (Option.some.inj knows).symm notRoot
  · obtain ⟨inPart, isPlain⟩ := mem_plainOf.mp listed
    have knowsToo := includes.numbers item.path member node knows
    obtain ⟨around, construct, atScope, fits, place⟩ := includes.holds.placed item inPart node knows
    obtain ⟨aroundToo, seen, atScopeToo, fitsToo, placeToo⟩ :=
      includes.holdsToo.placed item (includes.shared item listed) (number node) knowsToo
    have scopeListed := includes.closed item inPart
    rw [includes.numbers item.scope scopeListed around atScope] at atScopeToo
    cases atScopeToo
    exact ⟨item, around, construct, seen, isPlain, ⟨item.scope, scopeListed, atScope⟩, place,
      placeToo, fits, fitsToo⟩

/-- The trees agree on all but outputs. -/
theorem resembles : first.app.tree.Resembles (Plain part first) number second.app.tree := by
  have rootOf := includes.holds.wellFormed.root
  have rootOfToo := includes.holdsToo.wellFormed.root
  constructor
  case ordered => exact includes.holds.wellFormed.ordered
  case orderedToo => exact includes.holdsToo.wellFormed.ordered
  case root => exact includes.root_iff
  case parents =>
    intro node plain
    by_cases atRoot : node = Tree.rootId
    · rw [atRoot, includes.number_root, Tree.parent?, Tree.parent?, rootOf, rootOfToo]
      rfl
    · obtain ⟨_, _, _, _, _, _, place, placeToo, _, _⟩ := includes.places plain atRoot
      rw [Tree.parent?, Tree.parent?, place, placeToo]
      rfl
  case closed =>
    intro node parent plain found
    by_cases atRoot : node = Tree.rootId
    · rw [atRoot, Tree.parent?, rootOf] at found
      cases found
    · obtain ⟨_, around, _, _, _, plainAround, place, _, _, _⟩ := includes.places plain atRoot
      rw [Tree.parent?, place] at found
      cases found
      exact plainAround
  case ids =>
    intro node plain
    by_cases atRoot : node = Tree.rootId
    · rw [atRoot, includes.number_root, rootOf, rootOfToo]
    · obtain ⟨_, _, _, _, _, _, place, placeToo, _, _⟩ := includes.places plain atRoot
      rw [place, placeToo]
      rfl
  case areStacks =>
    intro node plain
    by_cases atRoot : node = Tree.rootId
    · rw [atRoot, includes.number_root, Tree.isStack, Tree.isStack, rootOf, rootOfToo]
    · obtain ⟨_, _, _, _, isPlain, _, place, placeToo, fits, fitsToo⟩ :=
        includes.places plain atRoot
      rw [Tree.isStack, Tree.isStack, place, placeToo]
      exact Construct.isStack_of_face (fits.face_eq fitsToo isPlain)

/-- Nothing in the first scope has the place of a construct that only the second one holds. -/
theorem noTwin (listed : item ∈ all) (isNew : item ∉ part) (subset : part ⊆ all)
    (atScope : first.paths.get? item.scope = some around) {child : NodeId} {found : Node}
    (isChild : child ∈ first.app.tree.children around)
    (atChild : first.app.tree.get? child = some found) : found.id ≠ item.id := by
  intro sameId
  obtain ⟨within, _, parentOfChild⟩ := Tree.mem_children isChild
  obtain ⟨path, knows⟩ := includes.holds.exists_path within
  rcases mem_allPaths.mp (includes.holds.mem_allPaths_of_known knows) with
    rfl | ⟨twin, inPart, rfl⟩
  · rw [includes.holds.known_root] at knows
    cases knows
    rw [includes.holds.wellFormed.ordered.rootless] at parentOfChild
    cases parentOfChild
  · obtain ⟨aroundTwin, _, atScopeTwin, _, place⟩ := includes.holds.placed twin inPart child knows
    rw [place] at atChild
    cases atChild
    rw [Tree.parent?, place] at parentOfChild
    cases parentOfChild
    have sameScope := includes.holds.path_unique atScopeTwin atScope
    have same := includes.holdsToo.eq_of_place (subset inPart) listed sameScope sameId
    exact isNew (same ▸ inPart)

/-- A construct that the second scope holds, and the first one does not yet, is admitted once the
construct around it is there. -/
theorem admits (listed : item ∈ all) (isNew : item ∉ part) (subset : part ⊆ all)
    (scopeListed : item.scope ∈ allPaths (plainOf part))
    (atScope : first.paths.get? item.scope = some around)
    (fits : surroundings.Fits item construct) :
    first.app.tree.Admits around item.id construct := by
  have wellFormed := includes.holdsToo.wellFormed
  obtain ⟨node, knows⟩ := includes.holdsToo.known_item listed
  obtain ⟨aroundToo, seen, atScopeToo, fitsToo, place⟩ :=
    includes.holdsToo.placed item listed node knows
  rw [includes.numbers item.scope scopeListed around atScope] at atScopeToo
  cases atScopeToo
  have plain : Plain part first around := ⟨item.scope, scopeListed, atScope⟩
  have isParent : second.app.tree.parent? node = some (number around) := by
    rw [Tree.parent?, place]
    rfl
  obtain ⟨notEmpty, noSlash⟩ := includes.holdsToo.usableId listed
  have sameStack : second.app.tree.parentStack? node =
      (first.app.tree.stackOf? around).map number := by
    rw [Tree.parentStack?_of_parent wellFormed.ordered isParent, includes.resembles.stackOf? plain]
  refine ⟨notEmpty, noSlash, includes.holds.lt_of_known atScope, fun child isChild found atChild =>
    includes.noTwin listed isNew subset atScope isChild atChild, ?_⟩
  constructor
  case inside =>
    intro needsStack
    obtain ⟨stack, found⟩ := wellFormed.enclosed place
      ((fits.needsStack_eq fitsToo).trans needsStack)
    rw [sameStack] at found
    obtain ⟨stackHere, foundHere, _⟩ := Option.map_eq_some_iff.mp found
    exact ⟨stackHere, foundHere⟩
  case outside =>
    intro options shape
    have outermost := (wellFormed.outermost place (fits.options_eq fitsToo shape)).1
    rwa [sameStack, Option.map_eq_none_iff] at outermost
  case named =>
    intro options shape
    have shapeToo := fits.options_eq fitsToo shape
    have named := (wellFormed.outermost place shapeToo).2
    subst shapeToo
    rw [Tree.stackName, place, Tree.uniqueId,
      Tree.pathComponents_of_parent wellFormed.ordered place rfl,
      includes.resembles.pathComponents plain] at named
    simp only [Option.some.injEq, includes.root_iff plain] at named
    cases given : options.name <;> simpa only [given] using named

end Includes

/-- Expressions see in the second scope what they see in the first one. -/
theorem Includes.shows {number : NodeId ≃ NodeId} {part all : List Item} {first second : Scope}
    (includes : Includes surroundings number part all first second) :
    first.Shows number second := by
  intro path node found knows place noOutput
  have listed : path ∈ allPaths (plainOf part) := by
    rcases mem_allPaths.mp (includes.holds.mem_allPaths_of_known knows) with
      rfl | ⟨item, inPart, rfl⟩
    · exact List.mem_cons_self
    · obtain ⟨_, construct, _, fits, placeToo⟩ := includes.holds.placed item inPart node knows
      rw [place] at placeToo
      cases placeToo
      exact mem_allPaths.mpr (.inr
        ⟨item, mem_plainOf.mpr ⟨inPart, fits.isOutput.symm.trans noOutput⟩, rfl⟩)
  have plain : Plain part first node := ⟨path, listed, knows⟩
  refine ⟨includes.numbers path listed node knows, ?_, includes.resembles.topLevelOf? plain⟩
  by_cases atRoot : node = Tree.rootId
  · have rootOfToo := includes.holdsToo.wellFormed.root
    rw [atRoot, includes.holds.wellFormed.root] at place
    cases place
    rw [atRoot, includes.number_root]
    exact ⟨_, rootOfToo, rfl⟩
  · obtain ⟨_, _, _, _, isPlain, _, placeHere, placeToo, fits, fitsToo⟩ :=
      includes.places plain atRoot
    rw [place] at placeHere
    cases placeHere
    exact ⟨_, placeToo, fits.face_eq fitsToo isPlain⟩

end Scope

end Definition

end StackSynth
