/-
This file compares graphs that the same calls make in different orders. Registrations are kept in
their order, and so are dependencies, but the two may be mixed in any way. Stacks, dependencies and
waves come out the same. What may differ are names: a stack that a dependency mentions before it is
registered is in the graph already, so the registration does nothing and the name is lost.
-/

import StackSynth.Proofs.Deployment.Registration

namespace StackSynth

open Outcome Relation

namespace GraphCall

/-- The stack that a call registers, with its name. -/
def registration? : GraphCall → Option (NodeId × String)
  | .register stack name => some (stack, name)
  | .depend _ _ => none

/-- The registrations among calls, in their order. -/
def registrations (calls : List GraphCall) : List (NodeId × String) :=
  calls.filterMap registration?

/-- Two mixtures of the same registrations and the same dependencies, each in its own order. -/
structure Interleaves (first second : List GraphCall) : Prop where
  registered : registrations first = registrations second
  needed : pairs first = pairs second

/-- The name under which a stack is registered for the first time. -/
def givenName? (calls : List GraphCall) (stack : NodeId) : Option String :=
  ((registrations calls).find? (·.1 = stack)).map (·.2)

/-- A stack is registered before any dependency mentions it. -/
def Announces (calls : List GraphCall) (stack : NodeId) : Prop :=
  ∃ before name after, calls = before ++ .register stack name :: after ∧ ¬Mentions before stack

variable {calls first second : List GraphCall} {stack : NodeId} {name : String}

theorem mem_registrations :
    (stack, name) ∈ registrations calls ↔ .register stack name ∈ calls := by
  rw [registrations, List.mem_filterMap]
  constructor
  · rintro ⟨call, member, registers⟩
    cases call with
    | register other its =>
      cases registers
      exact member
    | depend dependent dependency => cases registers
  · exact fun member => ⟨_, member, rfl⟩

/-- A stack is mentioned where it is registered and where something is added between it and
another one. -/
theorem mentions_iff : Mentions calls stack ↔ (∃ name, (stack, name) ∈ registrations calls) ∨
    ∃ other, Needs calls stack other ∨ Needs calls other stack := by
  simp only [mem_registrations, Needs, pairs, List.mem_filterMap]
  constructor
  · rintro ⟨call, member, subject⟩
    cases call with
    | register other name =>
      cases List.mem_singleton.mp subject
      exact .inl ⟨name, member⟩
    | depend dependent dependency =>
      rcases List.mem_pair.mp subject with rfl | rfl
      · exact .inr ⟨dependency, .inl ⟨_, member, rfl⟩⟩
      · exact .inr ⟨dependent, .inr ⟨_, member, rfl⟩⟩
  · rintro (⟨name, member⟩ | ⟨other, ⟨call, member, adds⟩ | ⟨call, member, adds⟩⟩)
    · exact ⟨_, member, List.mem_singleton_self stack⟩
    all_goals
      cases call with
      | register => cases adds
      | depend dependent dependency =>
        cases adds
        exact ⟨_, member, by simp [subjects]⟩

theorem Interleaves.mentions (interleave : Interleaves first second) :
    Mentions first stack ↔ Mentions second stack := by
  simp only [mentions_iff, Needs, interleave.registered, interleave.needed]

theorem Interleaves.needs (interleave : Interleaves first second) : Needs first = Needs second := by
  funext dependent dependency
  rw [Needs, Needs, interleave.needed]

theorem Interleaves.givenName? (interleave : Interleaves first second) :
    givenName? first stack = givenName? second stack := by
  rw [GraphCall.givenName?, interleave.registered, ← GraphCall.givenName?]

theorem exists_mem_of_givenName? (given : givenName? calls stack = some name) :
    .register stack name ∈ calls := by
  obtain ⟨⟨other, its⟩, found, same⟩ := Option.map_eq_some_iff.mp given
  have isStack : other = stack := by simpa using List.find?_some found
  cases same
  exact mem_registrations.mp (isStack ▸ List.mem_of_find?_eq_some found)

/-- A stack is announced if the first call about it registers it. -/
theorem announces_iff : Announces calls stack ↔
    ∃ name, calls.find? (fun call => stack ∈ call.subjects) = some (.register stack name) := by
  constructor
  · rintro ⟨before, name, after, rfl, unknown⟩
    refine ⟨name, List.find?_eq_some_iff_append.mpr
      ⟨decide_eq_true (List.mem_singleton_self stack), before, after, rfl, fun call member => ?_⟩⟩
    rw [Bool.not_eq_true', decide_eq_false_iff_not]
    exact fun subject => unknown ⟨call, member, subject⟩
  · rintro ⟨name, found⟩
    obtain ⟨_, before, after, split, noneBefore⟩ := List.find?_eq_some_iff_append.mp found
    refine ⟨before, name, after, split, ?_⟩
    rintro ⟨call, member, subject⟩
    simpa [subject] using noneBefore call member

/-- A stack that is announced is registered for the first time by the first call about it. -/
theorem givenName?_of_find
    (found : calls.find? (fun call => stack ∈ call.subjects) = some (.register stack name)) :
    givenName? calls stack = some name := by
  obtain ⟨_, before, after, rfl, noneBefore⟩ := List.find?_eq_some_iff_append.mp found
  have noneRegistered : (registrations before).find? (·.1 = stack) = none := by
    rw [List.find?_eq_none]
    rintro ⟨other, its⟩ member same
    cases of_decide_eq_true same
    simpa [subjects] using noneBefore _ (mem_registrations.mp member)
  rw [givenName?, registrations, List.filterMap_append, List.find?_append, ← registrations,
    noneRegistered]
  simp [registration?]

end GraphCall

namespace DeployGraph

open GraphCall

variable {graph : DeployGraph} {calls first second : List GraphCall} {algorithms : GraphAlgorithms}
  {waves : List (List NodeId)} {stack : NodeId} {name : String}

/-! ### Names -/

/-- A stack that is announced has the name that it is given first. -/
theorem name_of_announces (announced : Announces calls stack) :
    ∃ name, givenName? calls stack = some name ∧ (ofCalls calls).name stack = name := by
  obtain ⟨name, found⟩ := announces_iff.mp announced
  refine ⟨name, givenName?_of_find found, ?_⟩
  rw [DeployGraph.name, get?_ofCalls, found]
  rfl

/-- A stack that is not announced goes by its number. -/
theorem name_of_not_announces (notAnnounced : ¬Announces calls stack) :
    (ofCalls calls).name stack = nodeName stack := by
  rw [DeployGraph.name, get?_ofCalls]
  cases found : calls.find? (fun call => stack ∈ call.subjects) with
  | none => rfl
  | some call =>
    cases call with
    | depend => rfl
    | register other name =>
      have subject := List.find?_some found
      cases List.mem_singleton.mp (of_decide_eq_true subject)
      exact absurd (announces_iff.mpr ⟨name, found⟩) notAnnounced

theorem name_of_not_given (nameless : givenName? calls stack = none) :
    (ofCalls calls).name stack = nodeName stack := by
  refine name_of_not_announces fun announced => ?_
  obtain ⟨name, given, _⟩ := name_of_announces announced
  cases nameless.symm.trans given

open Classical in
theorem name_of_given (given : givenName? calls stack = some name) :
    (ofCalls calls).name stack = if Announces calls stack then name else nodeName stack := by
  split
  · rename_i announced
    obtain ⟨its, isGiven, named⟩ := name_of_announces announced
    cases isGiven.symm.trans given
    exact named
  · rename_i notAnnounced
    exact name_of_not_announces notAnnounced

/-! ### Everything else -/

/-- The same dependencies are added to the same ones. -/
theorem dependencies_addDependency {other : DeployGraph}
    (same : graph.dependencies = other.dependencies) (dependent dependency : NodeId) :
    (graph.addDependency dependent dependency).1.dependencies =
      (other.addDependency dependent dependency).1.dependencies := by
  have sameList : graph.dependenciesOf dependent = other.dependenciesOf dependent := by
    rw [dependenciesOf, same, ← dependenciesOf]
  rw [addDependency, addDependency, sameList]
  split
  · exact same
  · show graph.dependencies.insert dependent (graph.dependenciesOf dependent ++ [dependency]) =
      other.dependencies.insert dependent (other.dependenciesOf dependent ++ [dependency])
    rw [same, sameList]

/-- Dependencies come from the calls that add them, whatever is registered in between. -/
theorem dependencies_ofCalls (calls : List GraphCall) :
    (ofCalls calls).dependencies = (empty.addAll (pairs calls)).dependencies := by
  induction calls using List.reverseRecOn with
  | nil => rfl
  | append_singleton calls call inductionHypothesis =>
    rw [ofCalls, List.foldl_concat, ← ofCalls, pairs_concat, addAll, List.foldl_append, ← addAll]
    cases call with
    | register stack name => exact inductionHypothesis
    | depend dependent dependency =>
      exact dependencies_addDependency inductionHypothesis dependent dependency

/-- Two graphs that are answered alike, whatever is asked. -/
structure AnswersAlike (algorithms : GraphAlgorithms) (first second : DeployGraph) : Prop where
  name : ∀ stack, first.name stack = second.name stack
  dependencies : ∀ stack, first.dependenciesOf stack = second.dependenciesOf stack
  dependencyNames : ∀ stack, first.dependencyNames stack = second.dependencyNames stack
  edges : first.edges = second.edges
  edgeCount : first.edgeCount = second.edgeCount
  verified : first.verifyAcyclicBy algorithms = second.verifyAcyclicBy algorithms
  order : first.orderBy algorithms = second.orderBy algorithms
  waves : first.wavesBy algorithms = second.wavesBy algorithms

/-- Two answers that are the same, or that refuse for the same stacks, each by its own names. -/
def SameButNames {α : Type} (first second : DeployGraph)
    (answer answerToo : Except DeployError α) : Prop :=
  (∃ result, answer = .ok result ∧ answerToo = .ok result) ∨
    ∃ members : List NodeId, answer = .error (.cycle (members.map first.name)) ∧
      answerToo = .error (.cycle (members.map second.name))

/-- Two graphs that are answered alike, except that each names stacks in its own way. -/
structure AlikeButNames (algorithms : GraphAlgorithms) (first second : DeployGraph) : Prop where
  known : ∀ stack, first.stackNames.contains stack = second.stackNames.contains stack
  dependencies : ∀ stack, first.dependenciesOf stack = second.dependenciesOf stack
  edges : first.edges = second.edges
  edgeCount : first.edgeCount = second.edgeCount
  verified : SameButNames first second (first.verifyAcyclicBy algorithms)
    (second.verifyAcyclicBy algorithms)
  order : SameButNames first second (first.orderBy algorithms) (second.orderBy algorithms)
  waves : SameButNames first second (first.wavesBy algorithms) (second.wavesBy algorithms)

theorem SameButNames.eq {α : Type} {first second : DeployGraph}
    {answer answerToo : Except DeployError α} (same : SameButNames first second answer answerToo)
    (names : ∀ stack, first.name stack = second.name stack) : answer = answerToo := by
  rcases same with ⟨result, rfl, rfl⟩ | ⟨members, rfl, rfl⟩
  · rfl
  · rw [funext names]

/-- Only names can differ. -/
theorem AlikeButNames.answersAlike {first second : DeployGraph}
    (alike : AlikeButNames algorithms first second)
    (names : ∀ stack, first.name stack = second.name stack) :
    AnswersAlike algorithms first second where
  name := names
  dependencies := alike.dependencies
  dependencyNames stack := by
    rw [DeployGraph.dependencyNames, DeployGraph.dependencyNames, alike.known,
      alike.dependencies, funext names]
  edges := alike.edges
  edgeCount := alike.edgeCount
  verified := alike.verified.eq names
  order := alike.order.eq names
  waves := alike.waves.eq names

/-! ### Orders of calls -/

section Answers

variable (registers : graph.Registers calls) (lawful : algorithms.Lawful)
include registers lawful

theorem accepted_of_acyclic (acyclic : Acyclic calls) :
    graph.verifyAcyclicBy algorithms = .ok () ∧ ∃ waves, graph.wavesBy algorithms = .ok waves ∧
      graph.orderBy algorithms = .ok waves.flatten := by
  have verified := (verifyAcyclicBy_eq_ok registers.complete lawful).mpr
    (registers.acyclic_iff.mpr acyclic)
  obtain ⟨waves, found⟩ := (exists_wavesBy_iff registers.complete).mpr
    (registers.acyclic_iff.mpr acyclic)
  exact ⟨verified, waves, found, orderBy_eq_ok verified found⟩

theorem refused_of_cyclic (cyclic : ¬Acyclic calls) :
    graph.verifyAcyclicBy algorithms =
        .error (.cycle ((graph.onCycles algorithms).map graph.name)) ∧
      graph.wavesBy algorithms = .error (.cycle ((graph.onCycles algorithms).map graph.name)) ∧
      graph.orderBy algorithms = .error (.cycle ((graph.onCycles algorithms).map graph.name)) := by
  obtain ⟨stack, cycle⟩ : ∃ stack, TransGen graph.DependsOn stack stack := by
    simpa only [← registers.acyclic_iff, not_forall, not_not] using cyclic
  have refused := verifyAcyclicBy_eq_error registers.complete lawful cycle
  exact ⟨refused, wavesBy_eq_error registers.complete cycle refused, orderBy_eq_error refused⟩

end Answers

section Interleaved

variable (interleave : Interleaves first second)
include interleave

theorem sameArrows (source target : NodeId) : (ofCalls first).digraph.Arrow source target ↔
    (ofCalls second).digraph.Arrow source target := by
  rw [(registers_ofCalls first).arrow_iff, (registers_ofCalls second).arrow_iff,
    interleave.needs]

theorem sameNodes (stack : NodeId) :
    stack ∈ (ofCalls first).digraph.nodes ↔ stack ∈ (ofCalls second).digraph.nodes := by
  rw [(registers_ofCalls first).complete.nodes, (registers_ofCalls second).complete.nodes,
    (registers_ofCalls first).mentioned, (registers_ofCalls second).mentioned,
    interleave.mentions]

/-- Where both graphs have waves, these are the levels of the same dependencies. -/
theorem waves_eq {wavesToo : List (List NodeId)}
    (found : (ofCalls first).wavesBy algorithms = .ok waves)
    (foundToo : (ofCalls second).wavesBy algorithms = .ok wavesToo) : waves = wavesToo := by
  have levelled := StackDigraph.levelled_of_levels (registers_ofCalls first).complete.proper
    (wavesBy_eq_ok.mp found)
  have levelledToo := StackDigraph.levelled_of_levels (registers_ofCalls second).complete.proper
    (wavesBy_eq_ok.mp foundToo)
  exact levelled.unique levelledToo (sameArrows interleave) (sameNodes interleave)

/-- The same stacks lie on cycles, and both graphs list them by number. -/
theorem onCycles_eq (lawful : algorithms.Lawful) :
    (ofCalls first).onCycles algorithms = (ofCalls second).onCycles algorithms := by
  refine (pairwise_onCycles (registers_ofCalls first).complete lawful).eq_of_mem_iff
    (pairwise_onCycles (registers_ofCalls second).complete lawful) fun stack => ?_
  rw [mem_onCycles (registers_ofCalls first).complete lawful,
    mem_onCycles (registers_ofCalls second).complete lawful,
    (registers_ofCalls first).transGen_iff, (registers_ofCalls second).transGen_iff,
    interleave.needs]

/-- Mixtures of the same calls make graphs that differ in names at most. -/
theorem alikeButNames_of_interleaves (lawful : algorithms.Lawful) :
    AlikeButNames algorithms (ofCalls first) (ofCalls second) := by
  have registers := registers_ofCalls first
  have registersToo := registers_ofCalls second
  have answers : SameButNames (ofCalls first) (ofCalls second)
        ((ofCalls first).verifyAcyclicBy algorithms)
        ((ofCalls second).verifyAcyclicBy algorithms) ∧
      SameButNames (ofCalls first) (ofCalls second) ((ofCalls first).wavesBy algorithms)
        ((ofCalls second).wavesBy algorithms) ∧
      SameButNames (ofCalls first) (ofCalls second) ((ofCalls first).orderBy algorithms)
        ((ofCalls second).orderBy algorithms) := by
    by_cases acyclic : Acyclic first
    · have acyclicToo : Acyclic second := by
        rwa [Acyclic, ← interleave.needs, ← Acyclic]
      obtain ⟨verified, waves, found, ordered⟩ := accepted_of_acyclic registers lawful acyclic
      obtain ⟨verifiedToo, wavesToo, foundToo, orderedToo⟩ :=
        accepted_of_acyclic registersToo lawful acyclicToo
      cases waves_eq interleave found foundToo
      exact ⟨.inl ⟨_, verified, verifiedToo⟩, .inl ⟨_, found, foundToo⟩,
        .inl ⟨_, ordered, orderedToo⟩⟩
    · have cyclicToo : ¬Acyclic second := by
        rwa [Acyclic, ← interleave.needs, ← Acyclic]
      obtain ⟨verified, found, ordered⟩ := refused_of_cyclic registers lawful acyclic
      obtain ⟨verifiedToo, foundToo, orderedToo⟩ :=
        refused_of_cyclic registersToo lawful cyclicToo
      rw [← onCycles_eq interleave lawful] at verifiedToo foundToo orderedToo
      exact ⟨.inr ⟨_, verified, verifiedToo⟩, .inr ⟨_, found, foundToo⟩,
        .inr ⟨_, ordered, orderedToo⟩⟩
  obtain ⟨verified, waves, order⟩ := answers
  have sameDependencies : (ofCalls first).dependencies = (ofCalls second).dependencies := by
    rw [dependencies_ofCalls, dependencies_ofCalls, interleave.needed]
  exact
    { known := fun stack => by
        rw [Bool.eq_iff_iff, registers.mentioned, registersToo.mentioned, interleave.mentions]
      dependencies := fun stack => by
        rw [dependenciesOf, sameDependencies, ← dependenciesOf]
      edges := by rw [edges, sameDependencies, ← edges]
      edgeCount := by rw [registers.edgeCount, registersToo.edgeCount, interleave.needed]
      verified, order, waves }

/-- A stack has the same name in both graphs unless it is given one that shows in only one of
them. -/
theorem name_eq_iff : (ofCalls first).name stack = (ofCalls second).name stack ↔
    ∀ name, givenName? first stack = some name → name ≠ nodeName stack →
      (Announces first stack ↔ Announces second stack) := by
  cases given : givenName? first stack with
  | none =>
    have givenToo := interleave.givenName? ▸ given
    rw [name_of_not_given given, name_of_not_given givenToo]
    exact iff_of_true rfl fun _ never => nomatch never
  | some name =>
    have givenToo := interleave.givenName? ▸ given
    rw [name_of_given given, name_of_given givenToo]
    by_cases announced : Announces first stack <;>
      by_cases announcedToo : Announces second stack <;>
      simp [announced, announcedToo, eq_comm]

end Interleaved

/-- However registrations and dependencies are mixed, the graph has the same stacks, dependencies,
edges, waves and order, and is refused for the same stacks. A stack goes by the name that it is
given first if it is registered before a dependency mentions it, and else by its number. So two
mixtures are answered alike, whatever is asked, exactly if the stacks that are given a name are
announced in both or in neither. -/
theorem interleaving_shows_in_names_only (lawful : algorithms.Lawful)
    (interleave : Interleaves first second) :
    AlikeButNames algorithms (ofCalls first) (ofCalls second) ∧
    (∀ calls stack, (Announces calls stack →
        some ((ofCalls calls).name stack) = givenName? calls stack) ∧
      (¬Announces calls stack → (ofCalls calls).name stack = nodeName stack)) ∧
    (AnswersAlike algorithms (ofCalls first) (ofCalls second) ↔
      ∀ stack name, givenName? first stack = some name → name ≠ nodeName stack →
        (Announces first stack ↔ Announces second stack)) := by
  have alike := alikeButNames_of_interleaves interleave lawful
  refine ⟨alike, fun calls stack => ⟨fun announced => ?_, name_of_not_announces⟩, ?_⟩
  · obtain ⟨name, given, named⟩ := name_of_announces announced
    rw [given, named]
  · constructor
    · exact fun answers stack => (name_eq_iff interleave).mp (answers.name stack)
    · exact fun announced => alike.answersAlike fun stack =>
        (name_eq_iff interleave).mpr (announced stack)

/-- Two stacks that need each other, and one that needs the first of them. -/
def pairFirst : List GraphCall :=
  [.register 1 "S1", .register 2 "S2", .depend 1 2, .depend 2 1, .register 3 "S3", .depend 3 1]

/-- The same calls, with a dependency behind all registrations. -/
def pairLast : List GraphCall :=
  [.register 1 "S1", .register 2 "S2", .register 3 "S3", .depend 1 2, .depend 2 1, .depend 3 1]

theorem pairs_are_answered_alike :
    Interleaves pairFirst pairLast ∧ AnswersAlike .plain (ofCalls pairFirst) (ofCalls pairLast) := by
  have interleave : Interleaves pairFirst pairLast := ⟨rfl, rfl⟩
  refine ⟨interleave,
    (interleaving_shows_in_names_only GraphAlgorithms.lawful_plain interleave).2.2.mpr ?_⟩
  intro stack name given _
  have member := exists_mem_of_givenName? given
  simp only [pairFirst, List.mem_cons, GraphCall.register.injEq, reduceCtorEq, List.not_mem_nil,
    or_false, false_or] at member
  rcases member with ⟨rfl, _⟩ | ⟨rfl, _⟩ | ⟨rfl, _⟩
  all_goals exact iff_of_true (announces_iff.mpr ⟨_, rfl⟩) (announces_iff.mpr ⟨_, rfl⟩)

/-- A stack that is registered behind a dependency on it is answered for by its number. -/
theorem late_registration_is_lost :
    Interleaves [.register 1 "A", .depend 2 1] [.depend 2 1, .register 1 "A"] ∧
      givenName? [.depend 2 1, .register 1 "A"] 1 = some "A" ∧
      (ofCalls [.register 1 "A", .depend 2 1]).name 1 = "A" ∧
      (ofCalls [.depend 2 1, .register 1 "A"]).name 1 = "#1" ∧
      ¬AnswersAlike .plain (ofCalls [.register 1 "A", .depend 2 1])
        (ofCalls [.depend 2 1, .register 1 "A"]) := by
  have named : (ofCalls [.register 1 "A", .depend 2 1]).name 1 = "A" := by decide +kernel
  have nameless : (ofCalls [.depend 2 1, .register 1 "A"]).name 1 = "#1" := by decide +kernel
  refine ⟨⟨rfl, rfl⟩, by decide +kernel, named, nameless, fun answers => ?_⟩
  have same := answers.name 1
  rw [named, nameless] at same
  exact absurd same (by decide)

end DeployGraph

end StackSynth
