/-
This file says where the constructs of a definition come to stand. A definition takes paths apart at
their last slash and looks up what is before it; the tree puts ids together with slashes between
them. The two agree but for a slash at the beginning: nothing is before it, which is the path of the
root, so the id behind it is looked for at the root, and the tree forgets the slash.
-/

import StackSynth.Proofs.Definition.Arrangement
import StackSynth.Proofs.Definition.Expressions
import StackSynth.Proofs.Synthesis.Keeping

namespace StackSynth

namespace Definition

/-- The path without a slash at the beginning. -/
def unrooted (path : String) : String :=
  match path.toList with
  | '/' :: rest => String.ofList rest
  | _ => path

/-- Whether a path begins with a slash. -/
def IsRooted (path : String) : Prop := path.toList.head? = some '/'

instance (path : String) : Decidable (IsRooted path) :=
  inferInstanceAs (Decidable (path.toList.head? = some '/'))

variable {item : Item} {path id : String}

theorem unrooted_of_not_isRooted (notRooted : ¬IsRooted path) : unrooted path = path := by
  rw [unrooted]
  split
  · rename_i rest letters
    exact absurd (by rw [IsRooted, letters]; rfl) notRooted
  · rfl

theorem unrooted_slash (path : String) : unrooted ("/" ++ path) = path := by
  rw [unrooted, String.toList_append]
  exact String.ofList_toList

theorem isRooted_iff : IsRooted path ↔ ∃ rest, path = "/" ++ rest := by
  constructor
  · intro rooted
    obtain ⟨rest, letters⟩ := List.head?_eq_some_iff.mp rooted
    refine ⟨String.ofList rest, String.toList_inj.mp ?_⟩
    rw [letters]
    simp
  · rintro ⟨rest, rfl⟩
    rw [IsRooted, String.toList_append]
    rfl

theorem isRooted_append {rest : String} (some : path ≠ "") :
    IsRooted (path ++ rest) ↔ IsRooted path := by
  have letters : path.toList ≠ [] := fun none => some (String.toList_eq_nil_iff.mp none)
  rw [IsRooted, IsRooted, String.toList_append, List.head?_append_of_ne_nil _ letters]

theorem unrooted_append {rest : String} (some : path ≠ "") :
    unrooted (path ++ rest) = unrooted path ++ rest := by
  by_cases rooted : IsRooted path
  · obtain ⟨behind, rfl⟩ := isRooted_iff.mp rooted
    rw [String.append_assoc, unrooted_slash, unrooted_slash]
  · rw [unrooted_of_not_isRooted rooted,
      unrooted_of_not_isRooted (mt (isRooted_append some).mp rooted)]

/-- A path is the scope and the id with a slash between them, or the id alone. -/
theorem Item.path_eq (item : Item) :
    item.path = item.scope ++ "/" ++ item.id ∨ item.scope = "" ∧ item.path = item.id := by
  cases split : splitAtLast? '/' item.path with
  | none => exact .inr (by rw [Item.scope, Item.id, split]; exact ⟨rfl, rfl⟩)
  | some parts =>
    obtain ⟨before, after⟩ := parts
    refine .inl (String.toList_inj.mp ?_)
    rw [Item.scope, Item.id, split, (splitAtLast?_eq_some split).1]
    simp

/-- Without a slash at the beginning, the path of a construct is put together as the tree does. -/
theorem Item.unrooted_path (noSlash : '/' ∉ item.id.toList)
    (scope : item.scope ≠ "" → unrooted item.scope ≠ "") :
    unrooted item.path = Application.pathIn (unrooted item.scope) item.id := by
  by_cases atRoot : item.scope = ""
  · rw [atRoot, Application.pathIn, if_pos (by rfl)]
    rcases item.path_eq with path | ⟨_, path⟩
    · rw [path, atRoot, String.empty_append, unrooted_slash]
    · rw [path]
      refine unrooted_of_not_isRooted fun rooted => noSlash ?_
      exact List.mem_of_mem_head? rooted
  · rw [Application.pathIn, if_neg (scope atRoot)]
    rcases item.path_eq with path | ⟨never, _⟩
    · rw [path, String.append_assoc, unrooted_append atRoot, String.append_assoc]
    · exact absurd never atRoot

end Definition

/-! ### Places in the tree -/

namespace Tree

variable {tree : Tree} {node parent : NodeId} {found : Node}

theorem intercalate_concat (id : String) :
    ∀ {components : List String}, components ≠ [] →
      "/".intercalate (components ++ [id]) = "/".intercalate components ++ "/" ++ id
  | [], never => absurd rfl never
  | [_], _ => by simp [String.intercalate_cons_cons]
  | first :: second :: rest, _ => by
    have shorter := intercalate_concat id (List.cons_ne_nil second rest)
    rw [List.cons_append, List.cons_append, String.intercalate_cons_cons, ← List.cons_append,
      shorter, String.intercalate_cons_cons]
    simp only [String.append_assoc]

theorem path_root (tree : Tree) : tree.path rootId = "" := by
  rw [path, pathComponents, ancestors_root]
  rfl

theorem pathComponents_ne_nil (place : tree.get? node = some found) (notRoot : node ≠ rootId) :
    tree.pathComponents node ≠ [] := by
  obtain ⟨above, ancestors⟩ : ∃ above, tree.ancestors node = node :: above :=
    head_ancestors notRoot
  rw [pathComponents, idsOf, ancestors, List.filterMap_cons, place]
  simp

/-- Only the root has the empty path. -/
theorem WellFormed.path_ne_empty (wellFormed : tree.WellFormed) (place : tree.get? node = some found)
    (notRoot : node ≠ rootId) : tree.path node ≠ "" :=
  Naming.intercalate_ne_empty (wellFormed.usable_path node) (pathComponents_ne_nil place notRoot)

/-- The path of a construct is its id in the path of the construct around it. -/
theorem WellFormed.path_of_parent (wellFormed : tree.WellFormed)
    (place : tree.get? node = some found) (above : found.parent = some parent) :
    tree.path node = Application.pathIn (tree.path parent) found.id := by
  rw [path, pathComponents_of_parent wellFormed.ordered place above, Application.pathIn]
  by_cases atRoot : parent = rootId
  · rw [atRoot, if_pos (path_root tree), pathComponents, ancestors_root]
    exact String.intercalate_singleton
  · have isParent : tree.parent? node = some parent := by
      rw [parent?, place, Option.bind_some, above]
    obtain ⟨_, placeAbove⟩ := get?_of_lt
      (Nat.lt_trans (wellFormed.ordered.older isParent) (lt_of_get? place))
    rw [if_neg (wellFormed.path_ne_empty placeAbove atRoot),
      intercalate_concat found.id (pathComponents_ne_nil placeAbove atRoot), path]

end Tree

/-! ### Places of definitions -/

namespace Definition

/-- No place in a tree begins with a slash. -/
theorem not_isRooted_path {tree : Tree} (wellFormed : tree.WellFormed) (node : NodeId) :
    ¬IsRooted (tree.path node) := by
  have usable := wellFormed.usable_path node
  rw [Tree.path]
  cases components : tree.pathComponents node with
  | nil => exact nofun
  | cons first rest =>
    rw [components] at usable
    obtain ⟨notEmpty, noSlash⟩ := usable first List.mem_cons_self
    have begins : ∃ others, "/".intercalate (first :: rest) = first ++ others := by
      cases rest with
      | nil => exact ⟨"", by rw [String.intercalate_singleton, String.append_empty]⟩
      | cons second further =>
        exact ⟨_, by rw [String.intercalate_cons_cons, String.append_assoc]⟩
    obtain ⟨others, begins⟩ := begins
    rw [begins, isRooted_append notEmpty]
    exact fun rooted => noSlash (List.mem_of_mem_head? rooted)

namespace Scope.Holds

variable {shape : Item → Construct → Prop} {items : List Item} {scope : Scope} {item : Item}
  {path : String} {node : NodeId}

/-- What is known by a path stands in the tree where the path says, a slash at the beginning apart.
-/
theorem path_of_known (holds : scope.Holds shape items) :
    ∀ {path node}, scope.paths.get? path = some node → scope.app.tree.path node = unrooted path := by
  intro path node
  -- the construct around a construct is older
  induction node using Nat.strongRecOn generalizing path with
  | _ node inductionHypothesis =>
    intro knows
    rcases mem_allPaths.mp (holds.mem_allPaths_of_known knows) with rfl | ⟨item, listed, rfl⟩
    · rw [holds.known_root] at knows
      cases knows
      exact Tree.path_root _
    · obtain ⟨around, construct, atScope, _, place⟩ := holds.placed item listed node knows
      have isParent : scope.app.tree.parent? node = some around := by
        rw [Tree.parent?, place]
        rfl
      have older := holds.wellFormed.ordered.older isParent
      have aroundPath := inductionHypothesis around older atScope
      rw [holds.wellFormed.path_of_parent place rfl, aroundPath]
      refine (Item.unrooted_path (holds.usableId listed).2 fun notRoot => ?_).symm
      obtain ⟨_, placeAbove⟩ := Tree.get?_of_lt (Nat.lt_trans older (Tree.lt_of_get? place))
      rw [← aroundPath]
      refine holds.wellFormed.path_ne_empty placeAbove fun atRoot => notRoot ?_
      rw [atRoot] at atScope
      exact holds.path_unique atScope holds.known_root

end Scope.Holds

end Definition

end StackSynth
