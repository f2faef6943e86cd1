/-
This file shows that what is synthesized does not depend on the order in which a definition lists
its constructs. Whatever the order, it builds one application under various numbers; registries know
the same content in each of them, if equal content is published alike, and synthesis leaves no
number in what it yields.
-/

import StackSynth.Proofs.Definition.Renumbering
import StackSynth.Proofs.Synthesis.Publishing

namespace StackSynth

open Outcome

/-! ### Assets under other numbers -/

/-- The assets of a tree are the assets of another one that holds the same constructs. -/
theorem Tree.Renumbers.mem_assets {number : NodeId ≃ NodeId} {first second : Tree}
    (renumbers : first.Renumbers number second) {top : NodeId} {hash : ContentHash}
    {packaging : Asset.Packaging} :
    ⟨number top, hash, packaging⟩ ∈ second.assets ↔ ⟨top, hash, packaging⟩ ∈ first.assets := by
  rw [Tree.mem_assets_iff, Tree.mem_assets_iff]
  constructor
  · rintro ⟨node, other, placeToo, shapeToo, outermostToo⟩
    obtain ⟨origin, rfl⟩ := number.surjective node
    rw [renumbers.nodes] at placeToo
    rw [renumbers.topLevelOf?] at outermostToo
    obtain ⟨found, place, rfl⟩ := Option.map_eq_some_iff.mp placeToo
    obtain ⟨topHere, outermost, sameTop⟩ := Option.map_eq_some_iff.mp outermostToo
    refine ⟨origin, found, place, ?_, number.injective sameTop ▸ outermost⟩
    cases shape : found.construct <;> rw [Node.renumber, shape] at shapeToo <;> cases shapeToo
    rfl
  · rintro ⟨node, found, place, shape, outermost⟩
    refine ⟨number node, found.renumber number, ?_, ?_, ?_⟩
    · rw [renumbers.nodes, place, Option.map_some]
    · rw [Node.renumber, shape]
      rfl
    · rw [renumbers.topLevelOf?, outermost, Option.map_some]

namespace Definition

variable {surroundings : Surroundings} {first second definition : Definition}
  {app other : Application}

/-- No two assets of equal content differ in how they are published. -/
def Uniform (definition : Definition) (surroundings : Surroundings) : Prop :=
  ∀ source other hash, definition.Lists surroundings source → definition.Lists surroundings other →
    surroundings.bundler source = .ok hash → surroundings.bundler other = .ok hash →
    source.packaging = other.packaging

/-- Content on a file system is known by its digest. -/
theorem isDigest_of_bundler {source : Asset.Source} {hash : ContentHash}
    (hashed : surroundings.bundler source = .ok hash) : Naming.IsDigest hash := by
  rw [Asset.localBundler_eq_ok hashed]
  exact Naming.isDigest_contentHash _

theorem Accounts.digested (accounts : definition.Accounts surroundings app) :
    app.assets.Digested := by
  intro top record member
  have known := accounts.first top record.hash
  rw [accounts.once.mem_assetsOf.mp member, Option.map_some] at known
  obtain ⟨source, _, hashed, _⟩ :=
    accounts.sources _ (Tree.mem_assets_of_packagingOf? known.symm)
  exact isDigest_of_bundler hashed

/-- Where content is published alike, the registry tells of all assets how they are published. -/
theorem Accounts.packaging_iff (accounts : definition.Accounts surroundings app)
    (uniform : definition.Uniform surroundings) {top : NodeId} {hash : ContentHash}
    {packaging : Asset.Packaging} :
    (app.assets.find? top hash).map Asset.Record.packaging = some packaging ↔
      ⟨top, hash, packaging⟩ ∈ app.tree.assets := by
  rw [accounts.first]
  constructor
  · exact Tree.mem_assets_of_packagingOf?
  · intro listed
    obtain ⟨known, isFirst⟩ := Tree.exists_packagingOf? listed
    obtain ⟨source, lists, hashed, rfl⟩ := accounts.sources _ listed
    obtain ⟨sourceToo, listsToo, hashedToo, rfl⟩ :=
      accounts.sources _ (Tree.mem_assets_of_packagingOf? isFirst)
    rw [isFirst, uniform sourceToo source hash listsToo lists hashedToo hashed]

namespace Reorders

variable (reorders : first.Reorders second)
include reorders

theorem lists_iff {source : Asset.Source} :
    second.Lists surroundings source ↔ first.Lists surroundings source := by
  simp only [Lists, reorders.same.mem_iff]

theorem uniform (uniform : first.Uniform surroundings) : second.Uniform surroundings :=
  fun source other hash lists listsToo =>
    uniform source other hash (reorders.lists_iff.mp lists) (reorders.lists_iff.mp listsToo)

/-- Both orders build the same application under other numbers. -/
theorem renumbers_build (uniform : first.Uniform surroundings)
    (built : first.build surroundings = .ok app)
    (builtToo : second.build surroundings = .ok other) : ∃ number, app.Renumbers number other := by
  have accounts := accounts_build built
  have accountsToo := accounts_build builtToo
  obtain ⟨final, rfl, enclosed, stage⟩ := stage_build built
  obtain ⟨finalToo, rfl, _, stageToo⟩ := stage_build builtToo
  have trees := reorders.tree_renumbers stage stageToo enclosed
  refine ⟨reorders.number stage.nodup, trees, fun top hash => ?_, accounts.once, accountsToo.once,
    accounts.digested⟩
  refine Option.ext fun packaging => ?_
  rw [accounts.packaging_iff uniform, accountsToo.packaging_iff (reorders.uniform uniform),
    trees.mem_assets]

end Reorders

end Definition

/-! ### Documents under other numbers -/

namespace Tree.Renumbers

variable {number : NodeId ≃ NodeId} {first second : Tree} {stack : NodeId}
  (renumbers : first.Renumbers number second)
include renumbers

theorem nestedFile :
    Prepared.nestedFile second (number stack) = Prepared.nestedFile first stack := by
  rw [Prepared.nestedFile, Prepared.nestedFile, renumbers.uniqueId]

theorem documentFile : second.documentFile (number stack) = first.documentFile stack := by
  rw [Tree.documentFile, Tree.documentFile, renumbers.isNested, renumbers.nestedFile,
    renumbers.stackName]

end Tree.Renumbers

namespace Assembly

variable {number : NodeId ≃ NodeId} {tree treeToo : Tree} {first second : Prepared}
  {one other : Assembly}

/-- Documents that are kept under some numbers are kept under others. -/
theorem Keeps.renumber (trees : tree.Renumbers number treeToo)
    (documents : one.Documents tree first) (documentsToo : other.Documents treeToo second)
    (keeps : one.Keeps tree first) : other.Keeps treeToo second := by
  rw [documentsToo.keeps_iff trees.wellFormedToo]
  rw [documents.keeps_iff trees.wellFormed] at keeps
  intro nested nestedToo isNested isNestedToo different
  obtain ⟨origin, rfl⟩ := number.surjective nested
  obtain ⟨originToo, rfl⟩ := number.surjective nestedToo
  rw [trees.isNested] at isNested isNestedToo
  rw [trees.nestedFile, trees.nestedFile]
  exact keeps origin originToo isNested isNestedToo fun same => different (congrArg number same)

/-- Documents that are kept are the same under other numbers. -/
theorem Keeps.documents_eq (trees : tree.Renumbers number treeToo)
    (prepared : first.Renumbers number second) (keeps : one.Keeps tree first)
    (keepsToo : other.Keeps treeToo second) : one.documents = other.documents := by
  refine SortedMap.ext_get? fun file => Option.ext fun template => ?_
  rw [keeps.get?_eq_some, keepsToo.get?_eq_some]
  refine Iff.trans (exists_congr fun stack => ?_) number.surjective.exists.symm
  rw [trees.isStack, trees.documentFile, prepared.ownTemplate? trees]

end Assembly

/-! ### What a definition yields -/

namespace Definition

/-- What a definition yields: its application, with references wired and templates rendered, and
what is deployed. -/
structure Yield where
  app : Application
  prepared : Prepared
  assembly : Assembly

/-- What a definition yields, if it builds and synthesizes. -/
def yield? (definition : Definition) (surroundings : Surroundings) : Option Yield := do
  let app ← (definition.build surroundings).toOption
  let prepared ← (app.prepare surroundings.bundler).toOption
  let assembly ← (prepared.assembly app.tree).toOption
  return ⟨app, prepared, assembly⟩

namespace Yield

/-- The template that is rendered for a stack. -/
def template? (yield : Yield) (stack : NodeId) : Option Template :=
  yield.prepared.ownTemplate? yield.app.tree stack

/-- Two yields that nobody can tell apart by their output. Templates are compared with the order
of their sections, and so are documents; of assets the order does not matter. -/
structure SameOutput (one other : Yield) : Prop where
  /-- There are stacks at the same paths. -/
  paths : ∀ path, (∃ stack, one.app.tree.isStack stack = true ∧ one.app.tree.path stack = path) ↔
    ∃ stack, other.app.tree.isStack stack = true ∧ other.app.tree.path stack = path
  /-- Stacks at the same path have the same template. -/
  templates : ∀ stack stackToo, one.app.tree.isStack stack = true →
    other.app.tree.isStack stackToo = true →
    one.app.tree.path stack = other.app.tree.path stackToo →
    ∃ template, one.template? stack = some template ∧ other.template? stackToo = some template
  manifest : one.assembly.manifest.Alike other.assembly.manifest
  /-- Documents are the same, unless nested stacks share a file, of which only one is kept. -/
  documents : one.assembly.Keeps one.app.tree one.prepared →
    one.assembly.documents = other.assembly.documents

end Yield

variable {definition first second : Definition} {surroundings : Surroundings} {one two : Yield}

theorem yield?_eq_some :
    definition.yield? surroundings = some one ↔ definition.build surroundings = .ok one.app ∧
      one.app.prepare surroundings.bundler = .ok one.prepared ∧
      one.prepared.assembly one.app.tree = .ok one.assembly := by
  constructor
  · intro yields
    obtain ⟨app, built, yields⟩ := Option.bind_eq_some_iff.mp yields
    obtain ⟨prepared, ready, yields⟩ := Option.bind_eq_some_iff.mp yields
    obtain ⟨assembly, assembled, same⟩ := Option.bind_eq_some_iff.mp yields
    cases same
    exact ⟨eq_ok_of_toOption built, eq_ok_of_toOption ready, eq_ok_of_toOption assembled⟩
  · rintro ⟨built, ready, assembled⟩
    simp [yield?, built, ready, assembled, Except.toOption]

/-- The assembly that a definition yields is what synthesis gives of its application. -/
theorem map_assembly_yield? : (definition.yield? surroundings).map Yield.assembly =
    (definition.build surroundings).toOption.bind fun app =>
      (app.synthesize surroundings.bundler).toOption := by
  rw [yield?]
  cases definition.build surroundings with
  | error cause => rfl
  | ok app =>
    show Option.map _ ((app.prepare surroundings.bundler).toOption.bind _) =
      ((app.prepare surroundings.bundler).bind _).toOption
    cases app.prepare surroundings.bundler with
    | error cause => rfl
    | ok prepared =>
      show Option.map _ ((prepared.assembly app.tree).toOption.bind _) =
        (prepared.assembly app.tree).toOption
      cases prepared.assembly app.tree <;> rfl

namespace Yield

variable {number : NodeId ≃ NodeId}

/-- Applications of the same constructs have the same output. -/
theorem sameOutput_of_renumbers (renumbers : one.app.Renumbers number two.app)
    (prepared : one.prepared.Renumbers number two.prepared)
    (ready : one.app.prepare surroundings.bundler = .ok one.prepared)
    (readyToo : two.app.prepare surroundings.bundler = .ok two.prepared)
    (assembled : one.prepared.assembly one.app.tree = .ok one.assembly)
    (assembledToo : two.prepared.assembly two.app.tree = .ok two.assembly) :
    one.SameOutput two := by
  have trees := renumbers.tree
  have wellFormed := trees.wellFormed
  have wellFormedToo := trees.wellFormedToo
  constructor
  case paths =>
    intro path
    constructor
    · rintro ⟨stack, isStack, rfl⟩
      exact ⟨number stack, trees.isStack.trans isStack, trees.path⟩
    · rintro ⟨stack, isStack, rfl⟩
      obtain ⟨origin, rfl⟩ := number.surjective stack
      exact ⟨origin, trees.isStack.symm.trans isStack, trees.path.symm⟩
  case templates =>
    intro stack stackToo isStack isStackToo samePath
    have isHere : number stack = stackToo := by
      refine wellFormedToo.path_injective ?_ ?_ (trees.path.trans samePath)
      · obtain ⟨_, place, _⟩ := Tree.get?_of_isStack (trees.isStack.trans isStack)
        exact Tree.lt_of_get? place
      · obtain ⟨_, place, _⟩ := Tree.get?_of_isStack isStackToo
        exact Tree.lt_of_get? place
    obtain ⟨template, own, _⟩ :=
      Prepared.ownTemplate_of_prepare wellFormed ready assembled isStack
    refine ⟨template, own, ?_⟩
    rw [← isHere, template?, prepared.ownTemplate? trees, own]
  case manifest =>
    have graphs := Prepared.graphsUses_of_prepare wellFormed ready
    have graphsToo := Prepared.graphsUses_of_prepare wellFormedToo readyToo
    exact (prepared.assembly trees graphs graphsToo).related_of_eq_ok assembled assembledToo
  case documents =>
    intro keeps
    have documents := Assembly.documents_of_prepare wellFormed ready assembled
    have documentsToo := Assembly.documents_of_prepare wellFormedToo readyToo assembledToo
    exact keeps.documents_eq trees prepared (keeps.renumber trees documents documentsToo)

end Yield

/-- What is yielded in one order is yielded in the other. -/
theorem Reorders.exists_yield (reorders : first.Reorders second)
    (uniform : first.Uniform surroundings) (yields : first.yield? surroundings = some one) :
    ∃ two, second.yield? surroundings = some two ∧ one.SameOutput two := by
  obtain ⟨built, ready, assembled⟩ := yield?_eq_some.mp yields
  obtain ⟨other, builtToo⟩ := reorders.exists_build built
  obtain ⟨number, renumbers⟩ := reorders.renumbers_build uniform built builtToo
  obtain ⟨prepared, readyToo, alike⟩ := (renumbers.prepare
    (fun _ _ => isDigest_of_bundler)).exists_of_eq_ok ready
  have graphs := Prepared.graphsUses_of_prepare renumbers.tree.wellFormed ready
  have graphsToo := Prepared.graphsUses_of_prepare renumbers.tree.wellFormedToo readyToo
  obtain ⟨assembly, assembledToo, _⟩ :=
    (alike.assembly renumbers.tree graphs graphsToo).exists_of_eq_ok assembled
  exact ⟨⟨other, prepared, assembly⟩, yield?_eq_some.mpr ⟨builtToo, readyToo, assembledToo⟩,
    Yield.sameOutput_of_renumbers renumbers alike ready readyToo assembled assembledToo⟩

/-- Output does not depend on the order of constructs: of two definitions that list the same
constructs, each behind the one around it, and those of every scope in the same order, both yield
the same output or neither has any, if content is published alike. -/
theorem output_ignores_order (reorders : first.Reorders second)
    (uniform : first.Uniform surroundings) :
    Option.Rel Yield.SameOutput (first.yield? surroundings) (second.yield? surroundings) := by
  cases yields : first.yield? surroundings with
  | some one =>
    obtain ⟨two, yieldsToo, same⟩ := reorders.exists_yield uniform yields
    rw [yieldsToo]
    exact .some same
  | none =>
    cases yieldsToo : second.yield? surroundings with
    | none => exact .none
    | some two =>
      obtain ⟨one, never, _⟩ := reorders.symm.exists_yield (reorders.uniform uniform) yieldsToo
      rw [yields] at never
      cases never

/-! ### Moving constructs -/

/-- Blocks of constructs that have no scope in common can change places. -/
theorem reorders_of_apart {before block other after : List Item}
    (apart : ∀ item ∈ block, ∀ moved ∈ other, item.scope ≠ moved.scope)
    (parentsFirst : ParentsFirst ⟨before ++ (block ++ other) ++ after⟩)
    (parentsFirstToo : ParentsFirst ⟨before ++ (other ++ block) ++ after⟩) :
    Reorders ⟨before ++ (block ++ other) ++ after⟩ ⟨before ++ (other ++ block) ++ after⟩ where
  same := (List.perm_append_comm.append_left before).append_right after
  parentsFirst := parentsFirst
  parentsFirstToo := parentsFirstToo
  siblings scope isOutput := by
    simp only [List.filter_append]
    congr 2
    by_cases inBlock : ∃ item ∈ block, item.scope = scope
    · obtain ⟨item, listed, rfl⟩ := inBlock
      have none : other.filter (fun moved => moved.scope = item.scope ∧ moved.isOutput = isOutput) =
          [] := by
        refine List.filter_eq_nil_iff.mpr fun moved member chosen => ?_
        exact apart item listed moved member (of_decide_eq_true chosen).1.symm
      rw [none, List.append_nil, List.nil_append]
    · have none : block.filter (fun item => item.scope = scope ∧ item.isOutput = isOutput) =
          [] := by
        refine List.filter_eq_nil_iff.mpr fun item member chosen => ?_
        exact inBlock ⟨item, member, (of_decide_eq_true chosen).1⟩
      rw [none, List.append_nil, List.nil_append]

/-- A file, and a nested stack with a resource that reads a resource of another stack. -/
def inReader : List Item :=
  [⟨"S/F", .fileAsset "txt" []⟩, ⟨"S/N", .nestedStack⟩,
    ⟨"S/N/R", .resource "Custom::R" none [("of", .object [("Ref", .string "T/U")])]⟩]

/-- The same file, and the resource that is read. -/
def inSource : List Item :=
  [⟨"T/F", .fileAsset "txt" []⟩,
    ⟨"T/U", .resource "Custom::R" none
      [("key", .object [("Asset", .string "T/F"), ("Attribute", .string "key")])]⟩]

/-- Two stacks with their constructs, and an output of the first. -/
def twoStacks (parts : List Item) : Definition :=
  ⟨[⟨"S", .stack ⟨none, .unspecified⟩⟩, ⟨"T", .stack ⟨none, .unspecified⟩⟩] ++ parts ++
    [⟨"S/O", .output (.object [("Asset", .string "S/F"), ("Attribute", .string "url")]) none none⟩]⟩

theorem uniform_twoStacks : (twoStacks (inReader ++ inSource)).Uniform lookalikeSurroundings := by
  have isFile : ∀ source, (twoStacks (inReader ++ inSource)).Lists lookalikeSurroundings source →
      source = .file "txt" := by
    rintro source ⟨item, listed, isSource⟩
    simp only [twoStacks, inReader, inSource, List.cons_append, List.nil_append, List.mem_cons,
      List.not_mem_nil, or_false] at listed
    rcases listed with rfl | rfl | rfl | rfl | rfl | rfl | rfl | rfl <;>
      simp_all [Surroundings.source?, fileSource_lookalike]
  intro source other hash lists listsToo _ _
  rw [isFile source lists, isFile other listsToo]

/-- Which stack is filled first does not matter. -/
theorem twoStacks_ignore_order :
    ∃ one two, (twoStacks (inReader ++ inSource)).yield? lookalikeSurroundings = some one ∧
      (twoStacks (inSource ++ inReader)).yield? lookalikeSurroundings = some two ∧
      one.SameOutput two := by
  have yields :
      ((twoStacks (inReader ++ inSource)).yield? lookalikeSurroundings).isSome = true := by
    simp only [yield?, build, twoStacks, inReader, inSource, List.cons_append, List.nil_append,
      List.foldlM_cons, List.foldlM_nil, declare, create?, fileSource_lookalike, addAsset,
      Application.addAsset_of_hash bundler_lookalikeFile]
    decide +kernel
  have reorders :
      (twoStacks (inReader ++ inSource)).Reorders (twoStacks (inSource ++ inReader)) := by
    refine reorders_of_apart ?_ ?_ ?_
    · decide
    · rw [ParentsFirst]
      decide
    · rw [ParentsFirst]
      decide +kernel
  have alike := output_ignores_order reorders uniform_twoStacks
  revert alike yields
  generalize (twoStacks (inReader ++ inSource)).yield? lookalikeSurroundings = first
  generalize (twoStacks (inSource ++ inReader)).yield? lookalikeSurroundings = second
  rintro yields (same | _)
  · exact ⟨_, _, rfl, rfl, same⟩
  · cases yields

end Definition

end StackSynth
