/-
This file tells how a value stands in a stack on its way. At home it is written by what the template
of its stack declares for it, and behind each border by the name that it got there. The hops of a
leaf that is consumed in a stack bring it to stand there as the stack writes it.
-/

import StackSynth.Proofs.Wiring.Direction
import StackSynth.Wiring.View

namespace StackSynth

open Outcome

/-- A resource of a stack, by its name in the template. -/
structure Tree.ResourceIn (tree : Tree) (stack node : NodeId) (name : String) : Prop where
  place : ∃ found resource, tree.get? node = some found ∧ found.construct = .resource resource
  around : tree.parentStack? node = some stack
  named : tree.logicalId node = .ok name

/-- A parameter of a stack, by its name in the template. -/
structure Tree.ParameterIn (tree : Tree) (stack node : NodeId) (name : String) : Prop where
  place : ∃ found declaration,
    tree.get? node = some found ∧ found.construct = .parameter declaration
  around : tree.parentStack? node = some stack
  named : tree.logicalId node = .ok name

/-- A nested stack in a stack, by the name of the resource that embeds it. -/
structure Tree.NestedIn (tree : Tree) (stack nested : NodeId) (name : String) : Prop where
  isNested : tree.isNested nested = true
  around : tree.parentStack? nested = some stack
  named : tree.embeddingId nested = .ok name

/-- What produces a leaf: a resource, a parameter, a slot of an asset, a top-level stack, or a nested
stack as the stack around it sees it. -/
inductive Tree.Produces (tree : Tree) : Leaf → Producer → Prop where
  | resource {home node : NodeId} {name : String} (attr : String) :
    tree.ResourceIn home node name → Produces tree (.construct node attr)
      ⟨home, tree.pathComponents node, attr, if attr = "Ref" then .ref name else .getAtt name attr⟩
  | parameter {home node : NodeId} {name : String} : tree.ParameterIn home node name →
    Produces tree (.construct node "Ref") ⟨home, tree.pathComponents node, "Ref", .ref name⟩
  | slot (stack : NodeId) (hash : ContentHash) (slot : Asset.Slot) :
    Produces tree (.asset stack hash slot)
      ⟨stack, tree.pathComponents stack ++ [Naming.assetParametersComponent, hash, slot.name],
        "Ref", .ref (Naming.assetParameterName hash slot.name)⟩
  | own {stack : NodeId} (attr : StackAttribute) : tree.isStack stack = true →
    tree.isNested stack = false → Produces tree (.stack stack attr)
      ⟨stack, tree.pathComponents stack, identityAttribute attr, .ref attr.pseudo.name⟩
  | nested {home nested : NodeId} {resource : String} {path : List String}
    (attr : StackAttribute) : tree.NestedIn home nested resource →
    tree.embeddingPath nested = .ok path → Produces tree (.stack nested attr)
      ⟨home, path, identityAttribute attr, embeddedIdentity resource attr⟩

/-- How a stack writes a leaf that is at home in it. -/
inductive Tree.AtHome (tree : Tree) (stack : NodeId) : Leaf → Template.Value → Prop where
  /-- The stack itself. -/
  | own (attr : StackAttribute) : AtHome tree stack (.stack stack attr) (.ref attr.pseudo.name)
  | resource {node : NodeId} {name : String} : tree.ResourceIn stack node name →
    AtHome tree stack (.construct node "Ref") (.ref name)
  | attributeOf {node : NodeId} {name attr : String} : tree.ResourceIn stack node name →
    attr ≠ "Ref" → AtHome tree stack (.construct node attr) (.getAtt name attr)
  | parameter {node : NodeId} {name : String} : tree.ParameterIn stack node name →
    AtHome tree stack (.construct node "Ref") (.ref name)
  | slot (hash : ContentHash) (slot : Asset.Slot) :
    AtHome tree stack (.asset stack hash slot) (.ref (Naming.assetParameterName hash slot.name))
  | nestedId {nested : NodeId} {name : String} : tree.NestedIn stack nested name →
    AtHome tree stack (.stack nested .id) (.ref name)
  | nestedName {nested : NodeId} {name : String} : tree.NestedIn stack nested name →
    AtHome tree stack (.stack nested .name) (.select 1 (.split "/" (.ref name)))

/-- How a value is written behind a border that it has crossed. -/
inductive Tree.Arrives (tree : Tree) : Hop → NodeId → Template.Value → Prop where
  | received (stack : NodeId) (passage : Passage) :
    Arrives tree ⟨.into stack, passage⟩ stack
      (.ref (Naming.parameterName passage.path passage.attr))
  | read {stack parent : NodeId} {passage : Passage} {resource : String} :
    tree.NestedIn parent stack resource → Arrives tree ⟨.out stack, passage⟩ parent
      (.nestedOutput resource (Naming.outputName passage.path passage.attr))
  | imported {exporter importer : NodeId} (passage : Passage) :
    tree.isStack exporter = true → tree.parentStack? exporter = none →
    Arrives tree ⟨.across exporter importer, passage⟩ importer
      (.importValue (Naming.exportName (tree.stackName exporter)
        (Naming.exportOutputName passage.value.written)))

/-- How a leaf is written in a stack behind the hops that bring it there. -/
inductive Tree.Stands (tree : Tree) (leaf : Leaf) : List Hop → NodeId → Template.Value → Prop where
  | home {stack : NodeId} {value : Template.Value} :
    tree.AtHome stack leaf value → Stands tree leaf [] stack value
  | hop {hops : List Hop} {start next : NodeId} {crossing : Crossing}
    {passage behind : Passage} :
    Stands tree leaf hops start passage.value → tree.Crosses crossing start next →
    tree.beyond passage crossing = .ok behind →
    Stands tree leaf (hops ++ [⟨crossing, passage⟩]) next behind.value

/-- The hops of a leaf to a stack that consumes it. -/
def Tree.hopsTo (tree : Tree) (stack : NodeId) (leaf : Leaf) : Except ResolveError (List Hop) :=
  if (leaf.ownIdentity? stack).isSome then .ok []
  else do
    let producer ← tree.producer leaf
    let delivery ← tree.delivery producer stack
    return delivery.hops

/-- Only the identity of a stack is its own. -/
theorem Leaf.eq_of_ownIdentity? {leaf : Leaf} {stack : NodeId} {pseudo : PseudoParameter}
    (own : leaf.ownIdentity? stack = some pseudo) :
    ∃ attr : StackAttribute, leaf = .stack stack attr ∧ pseudo = attr.pseudo := by
  cases leaf with
  | stack owner attr =>
    rw [ownIdentity?] at own
    split at own
    · rename_i atOwner
      cases own
      exact ⟨attr, congrArg (Leaf.stack · attr) atOwner, rfl⟩
    · cases own
  | construct | asset => cases own

namespace Tree

variable {tree : Tree} {leaf : Leaf} {producer : Producer}

theorem produces_of_producer (origin : tree.producer leaf = .ok producer) :
    tree.Produces leaf producer := by
  cases leaf with
  | construct node attr =>
    rw [Tree.producer, constructProducer] at origin
    split at origin
    · cases origin
    · rename_i place found
      split at origin
      · cases origin
      · rename_i home belongs
        obtain ⟨name, named, origin⟩ := bind_eq_ok.mp origin
        rw [mapError_eq_ok] at named
        have around : place.construct.isStack = false → tree.parentStack? node = some home := by
          intro noStack
          have noStackHere : tree.isStack node = false := by
            rw [Tree.isStack, found]
            exact noStack
          rw [← stackOf?_of_not_isStack noStackHere, belongs]
        split at origin
        · rename_i resource shape
          cases origin
          exact .resource attr ⟨⟨_, _, found, shape⟩, around (by rw [shape]; rfl), named⟩
        · rename_i declaration shape
          split at origin
          · rename_i identity
            subst identity
            cases origin
            exact .parameter ⟨⟨_, _, found, shape⟩, around (by rw [shape]; rfl), named⟩
          · cases origin
        · cases origin
  | asset stack hash slot =>
    cases origin
    exact .slot stack hash slot
  | stack stack attr =>
    rw [Tree.producer, stackProducer] at origin
    split at origin
    · cases origin
    · rename_i place found
      have isStackHere : tree.isStack stack = place.construct.isStack := by
        rw [Tree.isStack, found]
      have isNestedHere : tree.isNested stack = place.construct.isNestedStack := by
        rw [Tree.isNested, found]
      rw [← isStackHere, ← isNestedHere] at origin
      obtain ⟨isStack, origin⟩ := check_eq_ok.mp origin
      split at origin
      · rename_i notNested
        cases origin
        exact .own attr (by simpa using isStack) (by simpa using notNested)
      · rename_i isNested
        split at origin
        · cases origin
        · rename_i home around
          obtain ⟨resource, named, origin⟩ := bind_eq_ok.mp origin
          obtain ⟨path, found, same⟩ := bind_eq_ok.mp origin
          rw [mapError_eq_ok] at named found
          cases same
          exact .nested attr ⟨by simpa using isNested, around, named⟩ found

/-- At home, a leaf is written as its producer says. -/
theorem atHome_of_producer (origin : tree.producer leaf = .ok producer) :
    tree.AtHome producer.home leaf producer.native := by
  cases produces_of_producer origin with
  | resource attr resourceIn =>
    by_cases identity : attr = "Ref"
    · subst identity
      exact .resource resourceIn
    · rw [if_neg identity]
      exact .attributeOf resourceIn identity
  | parameter parameterIn => exact .parameter parameterIn
  | slot stack hash slot => exact .slot hash slot
  | own attr => exact .own attr
  | nested attr nestedIn =>
    cases attr with
    | id => exact .nestedId nestedIn
    | name => exact .nestedName nestedIn

/-- The identity of a nested stack is at home in the stack around it. -/
theorem home_of_nested {nested : NodeId} {attr : StackAttribute}
    (isNested : tree.isNested nested = true)
    (origin : tree.producer (.stack nested attr) = .ok producer) :
    tree.parentStack? nested = some producer.home := by
  cases produces_of_producer origin with
  | own _ _ notNested =>
    rw [isNested] at notNested
    cases notNested
  | nested _ nestedIn => exact nestedIn.around

/-- A delivery brings a leaf to stand where it is consumed. -/
theorem WellFormed.stands_of_delivery (wellFormed : tree.WellFormed) {consumer : NodeId}
    {delivery : Delivery} (origin : tree.producer leaf = .ok producer)
    (delivered : tree.delivery producer consumer = .ok delivery) :
    tree.Stands leaf delivery.hops consumer delivery.final.value := by
  obtain ⟨route, found, _, travelled⟩ := delivery_eq_ok delivered
  have atHome : tree.Stands leaf [] producer.home producer.passage.value :=
    .home (atHome_of_producer origin)
  exact journey_induction (fun hops stack passage => tree.Stands leaf hops stack passage.value)
    .hop atHome (wellFormed.leads_of_route found) travelled

/-! ### Reading a stand -/

/-- Behind a border a value is written by the name that it got there. -/
theorem WellFormed.arrives_of_beyond (wellFormed : tree.WellFormed) {crossing : Crossing}
    {start goal : NodeId} {passage behind : Passage} (crosses : tree.Crosses crossing start goal)
    (moved : tree.beyond passage crossing = .ok behind) :
    tree.Arrives ⟨crossing, passage⟩ goal behind.value := by
  cases crosses with
  | out isStack around =>
    obtain ⟨resource, named, moved⟩ := bind_eq_ok.mp moved
    obtain ⟨path, _, same⟩ := bind_eq_ok.mp moved
    cases same
    rw [mapError_eq_ok] at named
    exact .read ⟨(wellFormed.isNested_iff isStack).mpr ⟨_, around⟩, around, named⟩
  | across isStack outermost =>
    cases moved
    exact .imported passage isStack outermost
  | into =>
    cases moved
    exact .received _ passage

/-- A leaf stands in a stack at home or behind a last border. -/
theorem Stands.home_or_arrives {hops : List Hop} {goal : NodeId} {value : Template.Value}
    (stands : tree.Stands leaf hops goal value) (wellFormed : tree.WellFormed) :
    (hops = [] ∧ tree.AtHome goal leaf value) ∨
      ∃ before hop start, hops = before ++ [hop] ∧ tree.Stands leaf before start hop.passage.value ∧
        tree.Crosses hop.crossing start goal ∧ tree.Arrives hop goal value := by
  cases stands with
  | home atHome => exact .inl ⟨rfl, atHome⟩
  | hop before crosses moved =>
    exact .inr ⟨_, _, _, rfl, before, crosses, wellFormed.arrives_of_beyond crosses moved⟩

/-- Before each of its hops a leaf stands in the stack from which the hop is made. -/
theorem Stands.before_hop {hops before after : List Hop} {hop : Hop} {goal : NodeId}
    {value : Template.Value} (stands : tree.Stands leaf hops goal value)
    (split : hops = before ++ hop :: after) :
    ∃ start next, tree.Stands leaf before start hop.passage.value ∧
      tree.Crosses hop.crossing start next := by
  induction stands generalizing after with
  | home => exact absurd split (by simp)
  | hop standsBefore crosses _ inductionHypothesis =>
    rcases List.eq_nil_or_concat after with rfl | ⟨rest, last, rfl⟩
    · obtain ⟨rfl, sameHop⟩ := List.append_inj' split rfl
      cases (List.cons.inj sameHop).1
      exact ⟨_, _, standsBefore, crosses⟩
    · rw [List.concat_eq_append, ← List.cons_append, ← List.append_assoc] at split
      exact inductionHypothesis (List.append_inj' split rfl).1

theorem Stands.atHome {goal : NodeId} {value : Template.Value}
    (stands : tree.Stands leaf [] goal value) : tree.AtHome goal leaf value := by
  generalize none : ([] : List Hop) = hops at stands
  cases stands with
  | home atHome => exact atHome
  | hop => exact absurd none (by simp)

theorem Stands.arrives {hops : List Hop} {hop : Hop} {goal : NodeId} {value : Template.Value}
    (stands : tree.Stands leaf (hops ++ [hop]) goal value) (wellFormed : tree.WellFormed) :
    ∃ start, tree.Stands leaf hops start hop.passage.value ∧
      tree.Crosses hop.crossing start goal ∧ tree.Arrives hop goal value := by
  generalize all : hops ++ [hop] = complete at stands
  cases stands with
  | home => exact absurd all (by simp)
  | hop before crosses moved =>
    obtain ⟨rfl, sameHop⟩ := List.append_inj' all rfl
    cases (List.cons.inj sameHop).1
    exact ⟨_, before, crosses, wellFormed.arrives_of_beyond crosses moved⟩

end Tree

end StackSynth
