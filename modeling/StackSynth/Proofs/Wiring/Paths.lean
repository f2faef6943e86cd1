/-
This file proves that routes follow the tree. Every stack stands in at most one other, so there is
one way up from a stack, and its chain lists it. Two stacks of one top-level stack have a nearest
stack around both: the route goes up to it from the one and down from it to the other. Stacks of
different top-level stacks have none, and the route goes up to the one top-level stack, across, and
down from the other. Which boundary a route crosses tells how its ends lie to each other.
-/

import Mathlib.Logic.Relation
import StackSynth.Proofs.Application.Building
import StackSynth.Proofs.Wiring.Direction

namespace StackSynth

open Relation

/-! ### Boundaries within a top-level stack -/

namespace Boundary

variable {up down : List NodeId}

theorem within_eq_descends_iff :
    within up down = .ancestorToNestedDescendant ↔ up = [] ∧ ¬down = [] := by
  cases up <;> cases down <;> simp [within]

theorem within_eq_ascends_iff :
    within up down = .nestedDescendantToAncestor ↔ ¬up = [] ∧ down = [] := by
  cases up <;> cases down <;> simp [within]

theorem within_eq_turns_iff :
    within up down = .siblingNestedUnderSharedParent ↔ (up = [] ↔ down = []) := by
  cases up <;> cases down <;> simp [within]

theorem within_ne_crosses : within up down ≠ .crossTopLevelSibling := by
  cases up <;> cases down <;> simp [within]

end Boundary

namespace Tree

variable {tree : Tree} {home goal stack parent inner outer shared top : NodeId}

/-- A stack stands directly in another one. -/
def StandsIn (tree : Tree) (inner outer : NodeId) : Prop := tree.parentStack? inner = some outer

/-- The nested stacks on the way up from a stack, each standing directly in the next one, and the
last of them in the stack at which the way ends. -/
inductive Climbs (tree : Tree) : NodeId → List NodeId → NodeId → Prop where
  | stay (stack : NodeId) : Climbs tree stack [] stack
  | rise {stack parent top : NodeId} {rest : List NodeId} : tree.isNested stack = true →
    tree.StandsIn stack parent → Climbs tree parent rest top →
    Climbs tree stack (stack :: rest) top

/-- The nearest of the stacks that two stacks both are or stand in, directly or not. -/
structure NearestCommon (tree : Tree) (home goal shared : NodeId) : Prop where
  aroundHome : ReflTransGen tree.StandsIn home shared
  aroundGoal : ReflTransGen tree.StandsIn goal shared
  nearest : ∀ {other}, ReflTransGen tree.StandsIn home other →
    ReflTransGen tree.StandsIn goal other → ReflTransGen tree.StandsIn shared other

/-- A route between two stacks goes up and down the tree, and its boundary says how they lie. -/
structure Follows (tree : Tree) (home goal : NodeId) (route : Route) : Prop where
  nested : ∀ stack ∈ route.up ++ route.down, tree.isNested stack = true
  distinct : (route.up ++ route.down).Nodup
  within : tree.topLevelOf? home = tree.topLevelOf? goal → route.across = none ∧
    ∃ shared, tree.NearestCommon home goal shared ∧ tree.Climbs home route.up shared ∧
      tree.Climbs goal route.down.reverse shared
  between : tree.topLevelOf? home ≠ tree.topLevelOf? goal → ∃ exporter importer,
    tree.topLevelOf? home = some exporter ∧ tree.topLevelOf? goal = some importer ∧
      route.across = some (exporter, importer) ∧ tree.Climbs home route.up exporter ∧
      tree.Climbs goal route.down.reverse importer
  descends : route.boundary = .ancestorToNestedDescendant ↔ TransGen tree.StandsIn goal home
  ascends : route.boundary = .nestedDescendantToAncestor ↔ TransGen tree.StandsIn home goal
  crosses : route.boundary = .crossTopLevelSibling ↔ tree.topLevelOf? home ≠ tree.topLevelOf? goal
  turns : route.boundary = .siblingNestedUnderSharedParent ↔
    ¬TransGen tree.StandsIn goal home ∧ ¬TransGen tree.StandsIn home goal ∧
      tree.topLevelOf? home = tree.topLevelOf? goal

theorem Climbs.isNested {passed : List NodeId} (climbs : tree.Climbs home passed top) :
    ∀ stack ∈ passed, tree.isNested stack = true := by
  induction climbs with
  | stay => exact List.forall_mem_nil _
  | rise isNested _ _ inductionHypothesis =>
    intro stack member
    rcases List.mem_cons.mp member with rfl | further
    · exact isNested
    · exact inductionHypothesis stack further

theorem Climbs.isNested_append {up down : List NodeId} (climbs : tree.Climbs home up outer)
    (climbsToo : tree.Climbs goal down.reverse top) :
    ∀ stack ∈ up ++ down, tree.isNested stack = true := by
  intro stack member
  rcases List.mem_append.mp member with inUp | inDown
  · exact climbs.isNested stack inUp
  · exact climbsToo.isNested stack (List.mem_reverse.mpr inDown)

namespace WellFormed

variable (wellFormed : tree.WellFormed)
include wellFormed

/-! ### Chains and the way up -/

/-- The chain of a stack holds what it is or stands in. -/
theorem mem_stackChain_iff (isStack : tree.isStack inner = true) :
    outer ∈ tree.stackChain inner ↔ ReflTransGen tree.StandsIn inner outer := by
  constructor
  · intro member
    induction inner using Nat.strongRecOn with
    | _ inner inductionHypothesis =>
      cases around : tree.parentStack? inner with
      | none =>
        rw [wellFormed.stackChain_of_outermost isStack around] at member
        rw [List.mem_singleton.mp member]
      | some parent =>
        rw [wellFormed.stackChain_of_nested isStack around] at member
        rcases List.mem_cons.mp member with rfl | further
        · exact .refl
        · exact .head around (inductionHypothesis parent
            (parentStack?_lt wellFormed.ordered around) (isStack_of_parentStack? around) further)
  · intro leads
    induction leads using ReflTransGen.head_induction_on with
    | refl =>
      obtain ⟨above, chain⟩ := wellFormed.head_stackChain isStack
      rw [chain]
      exact List.mem_cons_self
    | head around _ inductionHypothesis =>
      rw [wellFormed.stackChain_of_nested isStack around]
      exact List.mem_cons_of_mem _ (inductionHypothesis (isStack_of_parentStack? around))

/-- What a stack stands in is older than it. -/
theorem lt_of_standsIn (stands : TransGen tree.StandsIn inner outer) : outer < inner := by
  induction stands with
  | single around => exact parentStack?_lt wellFormed.ordered around
  | tail _ around older => exact Nat.lt_trans (parentStack?_lt wellFormed.ordered around) older

/-- Another stack is in the chain of a stack exactly if that stack stands in it. -/
theorem mem_stackChain_iff_of_ne (isStack : tree.isStack inner = true) (apart : outer ≠ inner) :
    outer ∈ tree.stackChain inner ↔ TransGen tree.StandsIn inner outer := by
  rw [wellFormed.mem_stackChain_iff isStack, reflTransGen_iff_eq_or_transGen]
  exact or_iff_right apart

/-- The first stacks of a chain are the way up to the next one. -/
theorem climbs_of_cut (isStack : tree.isStack stack = true) {before after : List NodeId}
    (cut : tree.stackChain stack = before ++ shared :: after) :
    tree.Climbs stack before shared := by
  refine wellFormed.cut_induction
    (motive := fun stack passed => tree.Climbs stack passed shared)
    (fun _ _ => .stay shared) ?_ isStack cut
  intro stack parent passed isStack around climbs
  exact .rise ((wellFormed.isNested_iff isStack).mpr ⟨parent, around⟩) around climbs

/-! ### Where two chains meet -/

section Meeting

variable (isHome : tree.isStack home = true) {up down above below : List NodeId}
  (homeCut : tree.stackChain home = up ++ shared :: above)
  (goalCut : tree.stackChain goal = down ++ shared :: below)
  (first : ∀ stack ∈ up, stack ∉ tree.stackChain goal)
include isHome homeCut goalCut first

/-- Nothing is passed on the way up exactly if the one stack is around the other. -/
theorem up_eq_nil_iff : up = [] ↔ home ∈ tree.stackChain goal := by
  obtain ⟨rest, chain⟩ := wellFormed.head_stackChain isHome
  rw [chain] at homeCut
  constructor
  · rintro rfl
    rw [(List.cons.inj homeCut).1, goalCut]
    exact List.mem_append_right _ List.mem_cons_self
  · intro inGoal
    cases up with
    | nil => rfl
    | cons head further =>
      exact absurd ((List.cons.inj homeCut).1 ▸ inGoal) (first head List.mem_cons_self)

variable (isGoal : tree.isStack goal = true)
include isGoal

/-- Where the chains of two stacks first meet is the nearest stack around both. -/
theorem nearestCommon_of_cuts : tree.NearestCommon home goal shared where
  aroundHome := (wellFormed.mem_stackChain_iff isHome).mp (by simp [homeCut])
  aroundGoal := (wellFormed.mem_stackChain_iff isGoal).mp (by simp [goalCut])
  nearest := by
    intro other aroundHome aroundGoal
    obtain ⟨isStack, chain⟩ := wellFormed.stackChain_cut isHome homeCut
    have inHome := (wellFormed.mem_stackChain_iff isHome).mpr aroundHome
    have inGoal := (wellFormed.mem_stackChain_iff isGoal).mpr aroundGoal
    rw [homeCut] at inHome
    refine (wellFormed.mem_stackChain_iff isStack).mp (chain ▸ ?_)
    exact (List.mem_append.mp inHome).resolve_left fun inUp => first other inUp inGoal

/-- Nothing is passed on the way down exactly if the other stack is around the one. -/
theorem down_eq_nil_iff : down = [] ↔ goal ∈ tree.stackChain home := by
  have nearest := wellFormed.nearestCommon_of_cuts isHome homeCut goalCut first isGoal
  obtain ⟨rest, chain⟩ := wellFormed.head_stackChain isGoal
  constructor
  · rintro rfl
    rw [chain] at goalCut
    rw [(List.cons.inj goalCut).1, homeCut]
    exact List.mem_append_right _ List.mem_cons_self
  · intro inHome
    cases down with
    | nil => rfl
    | cons head further =>
      -- the goal would be the nearest common stack, which stands further up in its own chain
      have once := nodup_stackChain wellFormed.ordered goal
      rw [goalCut, List.cons_append, List.nodup_cons] at once
      have atHead : goal = head := by
        rw [chain] at goalCut
        exact (List.cons.inj goalCut).1
      have apart : shared ≠ goal := by
        rintro rfl
        exact once.1 (atHead ▸ List.mem_append_right _ List.mem_cons_self)
      have aroundGoal := (reflTransGen_iff_eq_or_transGen.mp nearest.aroundGoal).resolve_left apart
      have aroundShared := (reflTransGen_iff_eq_or_transGen.mp (nearest.nearest
        ((wellFormed.mem_stackChain_iff isHome).mp inHome) .refl)).resolve_left (Ne.symm apart)
      exact absurd (wellFormed.lt_of_standsIn aroundGoal)
        (Nat.lt_asymm (wellFormed.lt_of_standsIn aroundShared))

/-- The route up to where two chains first meet, and down again, follows the tree. -/
theorem follows_within (apart : home ≠ goal) (distinct : (up ++ down.reverse).Nodup) :
    tree.Follows home goal ⟨.within up down.reverse, up, none, down.reverse⟩ := by
  have climbs := wellFormed.climbs_of_cut isHome homeCut
  have climbsToo := List.reverse_reverse down ▸ wellFormed.climbs_of_cut isGoal goalCut
  have sameTop : tree.topLevelOf? home = tree.topLevelOf? goal := by
    have aboveHome : shared ∈ tree.stackChain home := by simp [homeCut]
    have aboveGoal : shared ∈ tree.stackChain goal := by simp [goalCut]
    exact (wellFormed.topLevelOf?_of_mem isHome aboveHome).symm.trans
      (wellFormed.topLevelOf?_of_mem isGoal aboveGoal)
  have noneUp := (wellFormed.up_eq_nil_iff isHome homeCut goalCut first).trans
    (wellFormed.mem_stackChain_iff_of_ne isGoal apart)
  have noneDown := (wellFormed.down_eq_nil_iff isHome homeCut goalCut first isGoal).trans
    (wellFormed.mem_stackChain_iff_of_ne isHome (Ne.symm apart))
  have notBoth : ¬(TransGen tree.StandsIn goal home ∧ TransGen tree.StandsIn home goal) :=
    fun both => Nat.lt_asymm (wellFormed.lt_of_standsIn both.1) (wellFormed.lt_of_standsIn both.2)
  constructor
  case nested => exact climbs.isNested_append climbsToo
  case distinct => exact distinct
  case within =>
    refine fun _ => ⟨rfl, shared, ?_, climbs, climbsToo⟩
    exact wellFormed.nearestCommon_of_cuts isHome homeCut goalCut first isGoal
  case between => exact fun different => absurd sameTop different
  case descends =>
    rw [Boundary.within_eq_descends_iff, List.reverse_eq_nil_iff, noneUp, noneDown]
    exact and_iff_left_of_imp fun under above => notBoth ⟨under, above⟩
  case ascends =>
    rw [Boundary.within_eq_ascends_iff, List.reverse_eq_nil_iff, noneUp, noneDown]
    exact and_iff_right_of_imp fun above under => notBoth ⟨under, above⟩
  case crosses => exact iff_of_false Boundary.within_ne_crosses (not_not.mpr sameTop)
  case turns =>
    rw [Boundary.within_eq_turns_iff, List.reverse_eq_nil_iff, noneUp, noneDown]
    tauto

end Meeting

/-! ### Routes -/

/-- Between any two stacks there is a route. -/
theorem exists_route (isHome : tree.isStack home = true) (isGoal : tree.isStack goal = true) :
    ∃ route, tree.route home goal = .ok route := by
  have required : ∀ {stack}, tree.isStack stack = true →
      tree.requireChain stack = .ok (tree.stackChain stack) := by
    intro stack isStack
    obtain ⟨above, chain⟩ := wellFormed.head_stackChain isStack
    rw [requireChain, chain]
    exact if_pos rfl
  obtain ⟨homeTop, atHome⟩ := wellFormed.exists_topLevelOf? isHome
  obtain ⟨goalTop, atGoal⟩ := wellFormed.exists_topLevelOf? isGoal
  rw [topLevelOf?] at atHome atGoal
  rw [route]
  by_cases same : home = goal
  · rw [if_pos same]
    exact ⟨_, rfl⟩
  rw [if_neg same, required isHome, required isGoal]
  simp only [bind, Except.bind, atHome, atGoal]
  by_cases apart : homeTop ≠ goalTop
  · rw [if_pos apart]
    exact ⟨_, rfl⟩
  rw [if_neg apart]
  -- the top-level stack of both is in both chains
  cases meets : (tree.stackChain home).find? (fun stack => (tree.stackChain goal).contains stack)
    with
  | some shared => exact ⟨_, rfl⟩
  | none =>
    have notInGoal := List.find?_eq_none.mp meets homeTop (List.mem_of_getLast? atHome)
    rw [not_not.mp apart, List.contains_iff_mem] at notInGoal
    exact absurd (List.mem_of_getLast? atGoal) notInGoal

/-- A stack that another one stands in has its top-level stack. -/
theorem topLevelOf?_of_standsIn (isStack : tree.isStack inner = true)
    (stands : TransGen tree.StandsIn inner outer) :
    tree.topLevelOf? outer = tree.topLevelOf? inner :=
  wellFormed.topLevelOf?_of_mem isStack
    ((wellFormed.mem_stackChain_iff isStack).mpr stands.to_reflTransGen)

/-- The route up to a top-level stack, across to another one and down from it follows the tree. -/
theorem follows_between (isHome : tree.isStack home = true) (isGoal : tree.isStack goal = true)
    {up down : List NodeId} {exporter importer : NodeId}
    (homeCut : tree.stackChain home = up ++ [exporter])
    (goalCut : tree.stackChain goal = down ++ [importer]) (different : exporter ≠ importer)
    (distinct : (up ++ down.reverse).Nodup) :
    tree.Follows home goal
      ⟨.crossTopLevelSibling, up, some (exporter, importer), down.reverse⟩ := by
  have climbs := wellFormed.climbs_of_cut isHome homeCut
  have climbsToo := List.reverse_reverse down ▸ wellFormed.climbs_of_cut isGoal goalCut
  have atHome : tree.topLevelOf? home = some exporter := by
    rw [topLevelOf?, homeCut, List.getLast?_concat]
  have atGoal : tree.topLevelOf? goal = some importer := by
    rw [topLevelOf?, goalCut, List.getLast?_concat]
  have apartTops : tree.topLevelOf? home ≠ tree.topLevelOf? goal := by
    rw [atHome, atGoal]
    exact fun same => different (Option.some.inj same)
  have notUnder : ¬TransGen tree.StandsIn goal home :=
    fun under => apartTops (wellFormed.topLevelOf?_of_standsIn isGoal under)
  have notAbove : ¬TransGen tree.StandsIn home goal :=
    fun above => apartTops (wellFormed.topLevelOf?_of_standsIn isHome above).symm
  constructor
  case nested => exact climbs.isNested_append climbsToo
  case distinct => exact distinct
  case within => exact fun same => absurd same apartTops
  case between => exact fun _ => ⟨exporter, importer, atHome, atGoal, rfl, climbs, climbsToo⟩
  case descends => exact iff_of_false Boundary.noConfusion notUnder
  case ascends => exact iff_of_false Boundary.noConfusion notAbove
  case crosses => exact iff_of_true rfl apartTops
  case turns => exact iff_of_false Boundary.noConfusion fun all => apartTops all.2.2

/-- A route between different stacks follows the tree. -/
theorem follows_of_route (apart : home ≠ goal) {route : Route}
    (found : tree.route home goal = .ok route) : tree.Follows home goal route := by
  obtain ⟨isHome, isGoal⟩ := isStack_of_route found apart
  have distinct : (route.up ++ route.down).Nodup := by
    have once := wellFormed.nodup_holders found
    rw [route.map_holder_crossings] at once
    exact once.sublist (.append (.refl _) (List.sublist_append_right _ _))
  cases spans_of_route found with
  | stay same => exact absurd same apart
  | within homeCut goalCut first =>
    exact wellFormed.follows_within isHome homeCut goalCut first isGoal apart distinct
  | between homeCut goalCut different =>
    exact wellFormed.follows_between isHome isGoal homeCut goalCut different distinct

end WellFormed

end Tree

namespace Application

/-- Between any two different stacks there is a route, and it follows the tree. -/
theorem routes_follow_the_tree (bundler : Asset.Bundler) (steps : List BuildStep)
    {home goal : NodeId} (isHome : (build bundler steps).tree.isStack home = true)
    (isGoal : (build bundler steps).tree.isStack goal = true) (apart : home ≠ goal) :
    ∃ route, (build bundler steps).tree.route home goal = .ok route ∧
      (build bundler steps).tree.Follows home goal route := by
  have wellFormed := wellFormed_build bundler steps
  obtain ⟨route, found⟩ := wellFormed.exists_route isHome isGoal
  exact ⟨route, found, wellFormed.follows_of_route apart found⟩

/-- From the nested stack of the one top-level stack to that of the other. -/
theorem relay_route_follows :
    ∃ route, (build Asset.byPath relay).tree.route 2 5 = .ok route ∧
      (build Asset.byPath relay).tree.Follows 2 5 route := by
  have areStacks : (build Asset.byPath relay).tree.isStack 2 = true ∧
      (build Asset.byPath relay).tree.isStack 5 = true := by
    decide +kernel
  exact routes_follow_the_tree Asset.byPath relay areStacks.1 areStacks.2 (by decide)

end Application

end StackSynth
