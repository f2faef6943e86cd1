/-
This file proves that an addition stays local. A resource that reads nothing is added in a stack,
and the application is prepared before and after, turn by turn: outside of the stacks around the
addition both preparations are in the same state. A turn of a stack around the addition may differ
in all that it does, since the text of the template and with it every generated name may differ;
but what it does concerns stacks around it only, and these are again stacks around the addition. A
turn of any other stack renders the same template, since what it asks for was left alone, and so
wires the same references.
-/

import StackSynth.Proofs.Application.Coherence
import StackSynth.Proofs.Synthesis.Dependencies
import StackSynth.Proofs.Wiring.Addition

namespace StackSynth

open Outcome

variable {tree : Tree} {scope stack : NodeId} {id : String} {construct : Construct}

/-! ### Rendering -/

namespace Rendering

variable {rendering : Rendering} {member : NodeId}

/-- What a member of the tree declares it declares in the grown tree. -/
theorem declarationOf_withNew (ordered : tree.Ordered) (within : member < tree.size)
    {found : Option (String × Declaration)}
    (declared : rendering.declarationOf tree stack member = .ok found) :
    rendering.declarationOf (tree.withNew scope id construct) stack member = .ok found := by
  have views : ∀ {leaf value}, tree.view rendering.wiring.table stack leaf = .ok value →
      (tree.withNew scope id construct).view rendering.wiring.table stack leaf = .ok value :=
    fun written => Tree.view_withNew ordered written
  have writes : ∀ {value : Deferred} {written}, rendering.write tree stack value = .ok written →
      rendering.write (tree.withNew scope id construct) stack value = .ok written := by
    intro value written done
    rw [write, mapError_eq_ok] at done ⊢
    rw [← done]
    refine Deferred.resolve_congr value fun leaf asked => ?_
    obtain ⟨result, seen⟩ := Deferred.leaf_of_resolve_ok done leaf asked
    rw [seen, views seen]
  obtain ⟨node, place⟩ := Tree.get?_of_lt within
  have placeToo : (tree.withNew scope id construct).get? member = some node :=
    (Tree.get?_withNew_of_lt within).trans place
  cases shape : node.construct with
  | parameter declaration =>
    rw [declarationOf_parameter place shape] at declared
    rwa [declarationOf_parameter placeToo shape, Tree.logicalId_withNew ordered within]
  | resource resource =>
    rw [declarationOf_resource place shape] at declared
    rw [declarationOf_resource placeToo shape, Tree.logicalId_withNew ordered within]
    obtain ⟨properties, resolved, rest⟩ := declared
    refine ⟨properties, ?_, rest⟩
    rw [← resolved]
    refine Deferred.resolveMembers_congr _ fun leaf asked => ?_
    obtain ⟨result, seen⟩ := Deferred.leaf_of_resolveMembers_ok resolved leaf asked
    rw [seen, views seen]
  | output spec =>
    rw [declarationOf_output place shape] at declared
    rw [declarationOf_output placeToo shape, Tree.logicalId_withNew ordered within]
    obtain ⟨value, written, rest⟩ := declared
    exact ⟨value, writes written, rest⟩
  | nestedStack =>
    rw [declarationOf_nested place shape] at declared
    rw [declarationOf_nested placeToo shape, Tree.embeddingId_withNew ordered within]
    obtain ⟨resource, embedding, rest⟩ := declared
    refine ⟨resource, ?_, rest⟩
    rw [embeddingResource] at embedding ⊢
    split at embedding
    · cases embedding
    · obtain ⟨location, written, same⟩ := bind_eq_ok.mp embedding
      exact bind_eq_ok.mpr ⟨location, writes written, same⟩
  | _ =>
    rw [declarationOf, place, Option.map_some, shape] at declared
    rw [declarationOf, placeToo, Option.map_some, shape]
    exact declared

/-- The template of a stack in which nothing was added is rendered the same in the grown tree. -/
theorem template_withNew (wellFormed : tree.WellFormed) (admits : tree.Admits scope id construct)
    (noStack : construct.isStack = false) (isStack : tree.isStack stack = true)
    (elsewhere : tree.stackOf? scope ≠ some stack)
    {assetParameters : SortedMap String ParameterDecl} {template : Template}
    (rendered : rendering.template tree stack assetParameters = .ok template) :
    rendering.template (tree.withNew scope id construct) stack assetParameters = .ok template := by
  have declares : ∀ {start name declaration finish},
      declare tree stack start name declaration = .ok finish →
      declare (tree.withNew scope id construct) stack start name declaration = .ok finish := by
    intro start name declaration finish declared
    obtain ⟨isFree, rfl⟩ := declare_eq_ok declared
    rw [declare, isFree]
    rfl
  obtain ⟨middle, ofMembers, further⟩ := bind_eq_ok.mp rendered
  rw [Rendering.template, Tree.membersOf_withNew wellFormed admits noStack isStack elsewhere]
  refine bind_eq_ok.mpr ⟨middle, ?_, ?_⟩
  · refine foldlM_eq_ok_of_imp ofMembers fun member isMember state next turned => ?_
    have within : member < tree.size := by
      rw [wellFormed.membersOf_eq isStack] at isMember
      exact wellFormed.mem_preorder.mp (List.mem_filter.mp isMember).1
    obtain ⟨found, declared, turned⟩ := bind_eq_ok.mp turned
    refine bind_eq_ok.mpr
      ⟨found, declarationOf_withNew wellFormed.ordered within declared, ?_⟩
    cases found with
    | none => exact turned
    | some added => exact declares turned
  · exact foldlM_eq_ok_of_imp further fun added _ state next turned => declares turned

end Rendering

/-! ### The loop -/

namespace Prepared

variable {prepared next other otherNext : Prepared} {bundler : Asset.Bundler}

theorem nestedStacks_withNew (wellFormed : tree.WellFormed)
    (admits : tree.Admits scope id construct) (noStack : construct.isStack = false) :
    nestedStacks (tree.withNew scope id construct) = nestedStacks tree := by
  have place : ∀ {stack} {nodes : List NodeId}, stack < tree.size →
      (∀ node ∈ nodes, node < tree.size) →
      placeByDepth (tree.withNew scope id construct) stack nodes = placeByDepth tree stack nodes := by
    intro stack nodes within allWithin
    have alike := Tree.alikeBelow_withNew tree scope id construct
    induction nodes with
    | nil => rfl
    | cons first rest inductionHypothesis =>
      rw [placeByDepth, placeByDepth,
        ← alike.stackChain wellFormed.ordered (allWithin first List.mem_cons_self),
        ← alike.stackChain wellFormed.ordered within,
        inductionHypothesis fun node inRest => allWithin node (List.mem_cons_of_mem _ inRest)]
  have sameList : (tree.withNew scope id construct).allStacks.filter
      (tree.withNew scope id construct).isNested = tree.allStacks.filter tree.isNested := by
    rw [Tree.allStacks_withNew wellFormed admits noStack]
    exact List.filter_congr fun stack _ => Tree.isNested_withNew noStack stack
  rw [nestedStacks, nestedStacks, sameList]
  have listed : ∀ stack ∈ tree.allStacks.filter tree.isNested, stack < tree.size := fun _ member =>
    Tree.lt_of_isStack (wellFormed.mem_allStacks.mp (List.mem_filter.mp member).1)
  generalize tree.allStacks.filter tree.isNested = nodes at listed
  induction nodes with
  | nil => rfl
  | cons first rest inductionHypothesis =>
    have restListed := fun node inRest => listed node (List.mem_cons_of_mem _ inRest)
    rw [List.foldr_cons, List.foldr_cons, inductionHypothesis restListed]
    exact place (listed first List.mem_cons_self) fun node member =>
      restListed node ((perm_foldr_placeByDepth _).mem_iff.mp member)

theorem stackGraph_withNew (wellFormed : tree.WellFormed)
    (admits : tree.Admits scope id construct) (noStack : construct.isStack = false) :
    stackGraph (tree.withNew scope id construct) = stackGraph tree := by
  rw [stackGraph, stackGraph, Tree.topLevelStacks_withNew wellFormed admits noStack]
  refine List.foldl_ext _ _ _ fun graph stack member => ?_
  have within := Tree.lt_of_isStack (wellFormed.mem_topLevelStacks.mp member).1
  rw [← (Tree.alikeBelow_withNew tree scope id construct).stackName wellFormed.ordered within]

/-- The start of the preparation does not see a construct that consumes nothing. -/
theorem start_withNew {app grown : Application} (wellFormed : app.tree.WellFormed)
    (admits : app.tree.Admits scope id construct) (noStack : construct.isStack = false)
    (tree : grown.tree = app.tree.withNew scope id construct) (assets : grown.assets = app.assets)
    (consumesNothing : grown.tree.consumedBy app.tree.size = [])
    (started : start app = .ok prepared) : start grown = .ok prepared := by
  obtain ⟨references, wired, wiring, found, wiredAll, rfl⟩ := start_eq_ok started
  rw [tree] at consumesNothing
  obtain ⟨_, proper⟩ := wellFormed.references_eq_ok found
  obtain ⟨accounts, listed⟩ := Wiring.accounts_wireAll (.start app.tree _) wiredAll
  have within : ∀ reference ∈ references, reference.producer.home < app.tree.size ∧
      reference.consumerStack < app.tree.size := by
    intro reference member
    rw [← listed] at member
    obtain ⟨entry, isWired, rfl⟩ := List.mem_map.mp member
    obtain ⟨delivery, delivered, _⟩ := accounts.delivered isWired
    obtain ⟨route, routed, _⟩ := Tree.delivery_eq_ok delivered
    have away := (proper entry.1 (listed ▸ List.mem_map.mpr ⟨entry, isWired, rfl⟩)).1.away
    obtain ⟨isStackHome, isStackConsumer⟩ := Tree.isStack_of_route routed away
    exact ⟨Tree.lt_of_isStack isStackHome, Tree.lt_of_isStack isStackConsumer⟩
  have foundToo := Tree.references_withNew wellFormed admits noStack consumesNothing found
    fun reference member => (within reference member).1
  rw [start, tree, foundToo, stackGraph_withNew wellFormed admits noStack, assets]
  refine bind_eq_ok.mpr ⟨references, rfl, bind_eq_ok.mpr ⟨(wired, wiring), ?_, rfl⟩⟩
  rw [Wiring.wireAll_withNew wellFormed.ordered within, wiredAll]
  rfl

/-! ### Turns -/

/-- Two states of the preparation that do not differ in what concerns a stack. -/
structure Agree (stack : NodeId) (first second : Prepared) : Prop where
  wiring : Wiring.Agree stack first.wiring second.wiring
  embedded : first.rendering.embedded.get? stack = second.rendering.embedded.get? stack
  assets : first.assets.assetsOf stack = second.assets.assetsOf stack

namespace Agree

variable {third : Prepared}

theorem refl (stack : NodeId) (prepared : Prepared) : Agree stack prepared prepared :=
  ⟨⟨rfl, fun _ => rfl⟩, rfl, rfl⟩

theorem symm (agree : Agree stack prepared other) : Agree stack other prepared :=
  ⟨⟨agree.wiring.own.symm, fun leaf => (agree.wiring.table leaf).symm⟩, agree.embedded.symm,
    agree.assets.symm⟩

theorem trans (agree : Agree stack prepared other) (further : Agree stack other third) :
    Agree stack prepared third :=
  ⟨⟨agree.wiring.own.trans further.wiring.own,
    fun leaf => (agree.wiring.table leaf).trans (further.wiring.table leaf)⟩,
    agree.embedded.trans further.embedded, agree.assets.trans further.assets⟩

end Agree

/-- States that agree outside of a chain are the same to a stack outside of it. -/
theorem untouched_of_agree (wellFormed : tree.WellFormed) {around : NodeId}
    (isStackAround : tree.isStack around = true)
    (agree : ∀ place ∉ tree.stackChain around, Agree place prepared other)
    (apart : stack ∉ tree.stackChain around) :
    Rendering.Untouched tree stack prepared.rendering other.rendering := by
  have apartChild : ∀ {nested}, tree.isNested nested = true →
      tree.parentStack? nested = some stack → nested ∉ tree.stackChain around := by
    intro nested isNested isParent inside
    have isStack := Tree.isStack_of_isNested isNested
    refine apart (wellFormed.stackChain_subset isStackAround inside ?_)
    rw [wellFormed.stackChain_of_nested isStack isParent]
    exact List.mem_cons_of_mem _
      (List.mem_of_head? (wellFormed.stackOf?_stack (Tree.isStack_of_parentStack? isParent)))
  constructor
  case own => exact (agree stack apart).wiring.own
  case table => exact (agree stack apart).wiring.table
  case supplied =>
    exact fun nested isNested isParent =>
      congrArg StackWiring.received (agree nested (apartChild isNested isParent)).wiring.own
  case embedded =>
    exact fun nested isNested isParent => (agree nested (apartChild isNested isParent)).embedded

namespace Turn

variable {embedded : EmbeddedTemplate} {top parent : NodeId} {hash : ContentHash}
  {references : List Reference} {wired : List (Reference × Boundary)}

/-- A turn concerns the stacks around the embedded one only. -/
theorem elsewhere
    (turn : Turn tree bundler prepared stack next embedded top parent hash references wired)
    (wellFormed : tree.WellFormed) (isStack : tree.isStack stack = true) {place : NodeId}
    (apart : place ∉ tree.stackChain stack) : Agree place prepared next := by
  have chain := wellFormed.stackChain_of_nested isStack turn.around
  have apartAbove : place ∉ tree.stackChain parent := fun inside =>
    apart (chain ▸ List.mem_cons_of_mem _ inside)
  have notStack : place ≠ stack := by
    rintro rfl
    exact apart (List.mem_of_head? (wellFormed.stackOf?_stack isStack))
  have notTop : place ≠ top := fun same => apart (same ▸ List.mem_of_getLast? turn.outermost)
  have notParent : place ≠ parent := by
    rintro rfl
    exact apartAbove (List.mem_of_head? (wellFormed.stackOf?_stack turn.isStackParent))
  constructor
  case wiring =>
    refine ⟨(Wiring.stateOf_wireAll turn.wiring ?_).symm,
      fun leaf => (Wiring.table_wireAll turn.wiring ?_ leaf).symm⟩
    · intro reference member delivery delivered hop isHop same
      exact apartAbove (same ▸ turn.holder_mem_chain wellFormed isStack member delivered isHop)
    · intro reference member atPlace
      exact notParent (atPlace ▸ ((Tree.referencesAmong_eq_ok turn.found).2 reference member).2.2)
  case embedded => rw [turn.embeddedAfter, SortedMap.get?_insert_of_ne notStack]
  case assets =>
    rw [turn.assetsAfter, Asset.Registry.assetsOf_register, if_neg fun same => notTop same.1]

section Lockstep

variable
  (turn : Turn tree bundler prepared stack next embedded top parent hash references wired)
  {embeddedToo : EmbeddedTemplate} {topToo parentToo : NodeId} {hashToo : ContentHash}
  {referencesToo : List Reference} {wiredToo : List (Reference × Boundary)}
  (turnToo : Turn (tree.withNew scope id construct) bundler other stack otherNext embeddedToo
    topToo parentToo hashToo referencesToo wiredToo)
  (wellFormed : tree.WellFormed) (admits : tree.Admits scope id construct)
  (noStack : construct.isStack = false) (isStack : tree.isStack stack = true)
  (elsewhere : tree.stackOf? scope ≠ some stack)
  (untouched : Rendering.Untouched tree stack prepared.rendering other.rendering)
include turn turnToo wellFormed admits noStack isStack elsewhere untouched

theorem template_withNew : embeddedToo.template = embedded.template := by
  have rendered := turn.template
  rw [(untouched.agree wellFormed isStack).template] at rendered
  have renderedToo := turnToo.template
  rw [Rendering.template_withNew wellFormed admits noStack isStack elsewhere rendered]
    at renderedToo
  exact (Except.ok.inj renderedToo).symm

/-- Where nothing was added, the turns in the tree and in the grown tree embed the same. -/
theorem embedded_withNew :
    embeddedToo = embedded ∧ topToo = top ∧ parentToo = parent ∧ hashToo = hash := by
  have ordered := wellFormed.ordered
  have alike := Tree.alikeBelow_withNew tree scope id construct
  have within := Tree.lt_of_isStack isStack
  have sameTop : topToo = top := by
    have outermost := turnToo.outermost
    rw [← alike.topLevelOf? ordered within, turn.outermost] at outermost
    exact (Option.some.inj outermost).symm
  have sameParent : parentToo = parent := by
    have around := turnToo.around
    rw [← alike.parentStack? ordered within, turn.around] at around
    exact (Option.some.inj around).symm
  have sameTemplate :=
    turn.template_withNew turnToo wellFormed admits noStack isStack elsewhere untouched
  have sameFile : embeddedToo.file = embedded.file := by
    rw [turn.file, turnToo.file, nestedFile, nestedFile, Tree.uniqueId_withNew ordered within]
  have sameHash : hashToo = hash := by
    have hashed := turnToo.hashed
    rw [sameTemplate, sameFile, turn.hashed] at hashed
    exact (Except.ok.inj hashed).symm
  refine ⟨?_, sameTop, sameParent, sameHash⟩
  subst sameTop sameHash
  have sameLocation : embeddedToo.location = embedded.location :=
    turnToo.location.trans turn.location.symm
  obtain ⟨file, template, location⟩ := embedded
  obtain ⟨fileToo, templateToo, locationToo⟩ := embeddedToo
  cases sameTemplate
  cases sameFile
  cases sameLocation
  rfl

/-- Where nothing was added, the turns in the tree and in the grown tree do the same. -/
theorem lockstep {place : NodeId} (agree : Agree place prepared other) :
    Agree place next otherNext := by
  obtain ⟨rfl, rfl, rfl, rfl⟩ :=
    turn.embedded_withNew turnToo wellFormed admits noStack isStack elsewhere untouched
  have ordered := wellFormed.ordered
  have topWithin : topToo < tree.size :=
    Tree.lt_of_isStack (wellFormed.outermost_of_topLevelOf? turn.outermost).1
  obtain rfl : referencesToo = references := by
    have found := turnToo.found
    rw [Tree.referencesAmong_withNew ordered turn.found
      fun reference member => (turn.home_eq member).symm ▸ topWithin] at found
    exact (Except.ok.inj found).symm
  have wiring := turnToo.wiring
  rw [Wiring.wireAll_withNew ordered fun reference member =>
    ⟨(turn.home_eq member).symm ▸ topWithin,
      ((Tree.referencesAmong_eq_ok turn.found).2 reference member).2.2.symm ▸
        Tree.lt_of_isStack turn.isStackParent⟩] at wiring
  constructor
  case wiring => exact agree.wiring.wireAll turn.wiring wiring
  case embedded =>
    rw [turn.embeddedAfter, turnToo.embeddedAfter]
    by_cases here : place = stack
    · rw [here, SortedMap.get?_insert_self, SortedMap.get?_insert_self]
    · rw [SortedMap.get?_insert_of_ne here, SortedMap.get?_insert_of_ne here, agree.embedded]
  case assets =>
    rw [turn.assetsAfter, turnToo.assetsAfter, Asset.Registry.assetsOf_register,
      Asset.Registry.assetsOf_register, agree.assets]
    by_cases here : place = topToo
    · subst here
      rw [Asset.Registry.find?, Asset.Registry.find?, agree.assets]
    · rw [if_neg fun same => here same.1, if_neg fun same => here same.1]

end Lockstep

end Turn

/-! ### Whole preparations -/

section Run

variable {app grown : Application} {around : NodeId} (wellFormed : app.tree.WellFormed)
  (admits : app.tree.Admits scope id construct) (noStack : construct.isStack = false)
  (inside : app.tree.stackOf? scope = some around)
  (grew : grown.tree = app.tree.withNew scope id construct)
include wellFormed admits noStack inside grew

/-- A turn before the addition and the same turn after it keep their states in agreement outside of
the stacks around the addition. -/
theorem agree_turn (isNested : app.tree.isNested stack = true)
    (agree : ∀ place ∉ app.tree.stackChain around, Agree place prepared other)
    (turned : embed app.tree bundler prepared stack = .ok next)
    (turnedToo : embed grown.tree bundler other stack = .ok otherNext) {place : NodeId}
    (apart : place ∉ app.tree.stackChain around) : Agree place next otherNext := by
  rw [grew] at turnedToo
  obtain ⟨_, _, _, _, _, _, turn⟩ := turn_of_embed turned
  obtain ⟨_, _, _, _, _, _, turnToo⟩ := turn_of_embed turnedToo
  have isStack := Tree.isStack_of_isNested isNested
  have isStackAround := Tree.isStack_of_stackOf? inside
  by_cases around' : stack ∈ app.tree.stackChain around
  · -- both turns concern stacks around the addition only
    have apartHere : place ∉ app.tree.stackChain stack := fun insideHere =>
      apart (wellFormed.stackChain_subset isStackAround around' insideHere)
    have apartThere : place ∉ (app.tree.withNew scope id construct).stackChain stack := by
      rwa [← (Tree.alikeBelow_withNew app.tree scope id construct).stackChain wellFormed.ordered
        (Tree.lt_of_isStack isStack)]
    have before := turn.elsewhere wellFormed isStack apartHere
    have after := turnToo.elsewhere (wellFormed.withNew admits)
      ((Tree.isStack_withNew noStack stack).trans isStack) apartThere
    exact (before.symm.trans (agree place apart)).trans after
  · have elsewhere : app.tree.stackOf? scope ≠ some stack := by
      rw [inside]
      rintro ⟨⟩
      exact around' (List.mem_of_head? (wellFormed.stackOf?_stack isStackAround))
    exact turn.lockstep turnToo wellFormed admits noStack isStack elsewhere
      (untouched_of_agree wellFormed isStackAround agree around') (agree place apart)

/-- Preparations before and after an addition that consumes nothing agree outside of the stacks
around it, and make the same stacks depend on each other. -/
theorem agree_of_prepare (assets : grown.assets = app.assets)
    (consumesNothing : grown.tree.consumedBy app.tree.size = [])
    (ready : app.prepare bundler = .ok prepared) (readyToo : grown.prepare bundler = .ok other) :
    (∀ place ∉ app.tree.stackChain around, Agree place prepared other) ∧
      prepared.graph = other.graph := by
  obtain ⟨started, start, run, _⟩ := prepare_eq_ok ready
  obtain ⟨startedToo, startToo, runToo, _⟩ := prepare_eq_ok readyToo
  rw [start_withNew wellFormed admits noStack grew assets consumesNothing start] at startToo
  cases startToo
  rw [grew, nestedStacks_withNew wellFormed admits noStack, ← grew] at runToo
  refine foldlM_lockstep (fun state other =>
    (∀ place ∉ app.tree.stackChain around, Agree place state other) ∧ state.graph = other.graph)
    ?_ ⟨fun place _ => .refl place started, rfl⟩ run runToo
  rintro stack listed state next other otherNext ⟨agree, sameGraph⟩ turned turnedToo
  have isNested := (mem_nestedStacks wellFormed).mp listed
  have isStack := Tree.isStack_of_isNested isNested
  refine ⟨fun place apart => agree_turn wellFormed admits noStack inside grew isNested agree turned
    turnedToo apart, ?_⟩
  have grownWellFormed : grown.tree.WellFormed := grew ▸ wellFormed.withNew admits
  have isStackToo : grown.tree.isStack stack = true :=
    grew ▸ (Tree.isStack_withNew noStack stack).trans isStack
  rw [graph_of_embed wellFormed isStack turned, sameGraph,
    graph_of_embed grownWellFormed isStackToo turnedToo]

end Run

end Prepared

end StackSynth
