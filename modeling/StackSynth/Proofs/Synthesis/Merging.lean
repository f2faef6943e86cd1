/-
This file decides when two values become one on their way. Parameters, outputs and exports are added
only where their names are free, and nobody compares who claims a name, so two values that get one
name at one border are one behind it. This is one of two ways in which a stack comes to write two
leaves alike; the other is that one name of its template stands for both.
-/

import StackSynth.Proofs.Synthesis.Chains
import StackSynth.Proofs.Synthesis.Meaning
import StackSynth.Proofs.Template.Writing

namespace StackSynth

open Outcome

variable {tree : Tree} {prepared : Prepared} {stack : NodeId} {name : String}

/-- The ways in which two leaves become one on their way to a stack. -/
inductive Tree.Merge (tree : Tree) (first second : Leaf) : NodeId → List Hop → List Hop → Prop where
  /-- One name of the stack stands for both. -/
  | coincide {stack : NodeId} {hops others : List Hop} {meaning other : Meaning} {name : String} :
    tree.Means stack first hops meaning name → tree.Means stack second others other name →
    meaning.mayCoincide other = true → Merge tree first second stack hops others
  /-- Both get one name as parameters of the stack. -/
  | received {stack : NodeId} {hops others : List Hop} {passage other : Passage} :
    Naming.parameterName passage.path passage.attr = Naming.parameterName other.path other.attr →
    Merge tree first second stack (hops ++ [⟨.into stack, passage⟩])
      (others ++ [⟨.into stack, other⟩])
  /-- Both get one name as outputs of a nested stack. -/
  | shown {stack nested : NodeId} {hops others : List Hop} {passage other : Passage} :
    Naming.outputName passage.path passage.attr = Naming.outputName other.path other.attr →
    Merge tree first second stack (hops ++ [⟨.out nested, passage⟩])
      (others ++ [⟨.out nested, other⟩])
  /-- Both are one already in the stack that exports them. -/
  | imported {exporter importer : NodeId} {hops others : List Hop} {passage other : Passage} :
    Merge tree first second exporter hops others →
    Merge tree first second importer (hops ++ [⟨.across exporter importer, passage⟩])
      (others ++ [⟨.across exporter importer, other⟩])

namespace Tree

variable {first second leaf : Leaf} {hops others : List Hop} {value : Template.Value}

/-- Two hops that give one name to what they bring into a stack. -/
inductive ShareName (tree : Tree) (stack : NodeId) : Hop → Hop → Prop where
  /-- The name of a parameter of the stack. -/
  | received {passage other : Passage} :
    Naming.parameterName passage.path passage.attr = Naming.parameterName other.path other.attr →
    ShareName tree stack ⟨.into stack, passage⟩ ⟨.into stack, other⟩
  /-- The name of an output of a nested stack. -/
  | shown {nested : NodeId} {passage other : Passage} :
    Naming.outputName passage.path passage.attr = Naming.outputName other.path other.attr →
    ShareName tree stack ⟨.out nested, passage⟩ ⟨.out nested, other⟩
  /-- The name of an export of another stack. -/
  | imported {exporter : NodeId} {passage other : Passage} : tree.isStack exporter = true →
    Naming.exportOutputName passage.value.written = Naming.exportOutputName other.value.written →
    ShareName tree stack ⟨.across exporter stack, passage⟩ ⟨.across exporter stack, other⟩

/-- All that a leaf is written as is primitive. -/
theorem Stands.primitive (stands : tree.Stands leaf hops stack value)
    (wellFormed : tree.WellFormed) : value.Primitive := by
  rcases stands.home_or_arrives wellFormed with ⟨_, atHome⟩ | ⟨_, _, _, _, _, _, arrives⟩
  · cases atHome with
    | own | resource | parameter | slot | nestedId => exact .ref _
    | attributeOf => exact .getAtt _ _
    | nestedName => exact .addressPart _
  · cases arrives with
    | received => exact .ref _
    | read => exact .getAtt _ _
    | imported => exact .importValue _

/-- Leaves that have merged are written alike. -/
theorem Merge.eq (merge : tree.Merge first second stack hops others)
    (wellFormed : tree.WellFormed) :
    ∀ {value last}, tree.Stands first hops stack value → tree.Stands second others stack last →
      value = last := by
  induction merge with
  | coincide meansFirst meansSecond _ =>
    intro value last standsFirst standsSecond
    rw [wellFormed.value_of_means meansFirst standsFirst,
      wellFormed.value_of_means meansSecond standsSecond]
  | received sameName =>
    intro value last standsFirst standsSecond
    obtain ⟨_, _, _, arrivesFirst⟩ := standsFirst.arrives wellFormed
    obtain ⟨_, _, _, arrivesSecond⟩ := standsSecond.arrives wellFormed
    cases arrivesFirst with
    | received =>
      cases arrivesSecond with
      | received => rw [sameName]
  | shown sameName =>
    intro value last standsFirst standsSecond
    obtain ⟨_, _, _, arrivesFirst⟩ := standsFirst.arrives wellFormed
    obtain ⟨_, _, _, arrivesSecond⟩ := standsSecond.arrives wellFormed
    cases arrivesFirst with
    | read nestedIn =>
      cases arrivesSecond with
      | read otherIn =>
        rw [sameName, Except.ok.inj (nestedIn.named.symm.trans otherIn.named)]
  | imported _ inductionHypothesis =>
    intro value last standsFirst standsSecond
    obtain ⟨_, beforeFirst, crossesFirst, arrivesFirst⟩ := standsFirst.arrives wellFormed
    obtain ⟨_, beforeSecond, crossesSecond, arrivesSecond⟩ := standsSecond.arrives wellFormed
    cases crossesFirst with
    | across =>
      cases crossesSecond with
      | across =>
        have sameValue := inductionHypothesis beforeFirst beforeSecond
        cases arrivesFirst with
        | imported =>
          cases arrivesSecond with
          | imported => rw [sameValue]

end Tree

/-! ### Suffixes -/

/-- The text whose suffix ends the name of a leaf, if it is a slot of an asset. -/
def Leaf.suffixed? : Leaf → Option String
  | .asset _ hash slot => some (Naming.assetText hash slot)
  | _ => none

/-- The text whose suffix ends the name of a hop, if it is an export. -/
def Hop.suffixed? (hop : Hop) : Option String :=
  match hop.crossing with
  | .across _ _ => some (Naming.exportText hop.passage.value.written)
  | _ => none

/-- The leaves that are consumed in a stack: those that its members consume, and those in the
addresses of the templates that it embeds. -/
def Prepared.consumedIn (tree : Tree) (prepared : Prepared) (stack : NodeId) : List Leaf :=
  (tree.membersOf stack).flatMap tree.consumedBy ++ prepared.rendering.asked tree stack

/-- The texts whose suffixes end the names of consumed slots and of exports. -/
def Prepared.suffixed (tree : Tree) (prepared : Prepared) : List String :=
  (tree.allStacks.flatMap (prepared.consumedIn tree)).filterMap Leaf.suffixed? ++
    (tree.hopsOf prepared.wired).filterMap Hop.suffixed?

theorem Prepared.suffixed_of_made {hop : Hop} {text : String}
    (made : tree.Made prepared.wired hop) (isSuffixed : hop.suffixed? = some text) :
    text ∈ prepared.suffixed tree :=
  List.mem_append_right _ (List.mem_filterMap.mpr ⟨hop, Tree.mem_hopsOf made, isSuffixed⟩)

/-- The suffixes of names tell their texts apart. -/
def Prepared.Separate (tree : Tree) (prepared : Prepared) : Prop :=
  ∀ text ∈ prepared.suffixed tree, ∀ other ∈ prepared.suffixed tree,
    idSuffix text = idSuffix other → text = other

instance (tree : Tree) (prepared : Prepared) : Decidable (prepared.Separate tree) :=
  inferInstanceAs (Decidable (∀ text ∈ prepared.suffixed tree, ∀ other ∈ prepared.suffixed tree,
    idSuffix text = idSuffix other → text = other))

/-! ### How leaves become one -/

namespace Tree

/-- No slot has the name of a parameter by which a value arrives. -/
theorem Means.not_received_of_slot {first second : Leaf} {hops others : List Hop}
    (meansFirst : tree.Means stack first hops .slot name)
    (meansSecond : tree.Means stack second others .received name) : False := by
  generalize sameName : name = shared at meansSecond
  cases meansFirst with
  | slot hash slot =>
    cases meansSecond with
    | received _ before passage =>
      exact Naming.parameterName_ne_assetParameterName _ _ _ _ sameName.symm

theorem Means.merge_received {first second : Leaf} {hops others : List Hop}
    (meansFirst : tree.Means stack first hops .received name)
    (meansSecond : tree.Means stack second others .received name) :
    tree.Merge first second stack hops others := by
  generalize sameName : name = shared at meansSecond
  cases meansFirst with
  | received _ before passage =>
    cases meansSecond with
    | received _ beforeSecond other => exact .received sameName

section Deciding

variable {first second leaf : Leaf} {hops others : List Hop} {value : Template.Value}
  (wellFormed : tree.WellFormed) (rendered : prepared.AllRendered tree)
include wellFormed rendered

/-- A value at home and one that arrives are written alike only by a parameter. -/
theorem AtHome.means_of_arrives {hop : Hop} (atHome : tree.AtHome stack leaf value)
    (isStack : tree.isStack stack = true) (arrives : tree.Arrives hop stack value) :
    ∃ meaning passage, hop = ⟨.into stack, passage⟩ ∧
      tree.Means stack leaf [] meaning (Naming.parameterName passage.path passage.attr) := by
  obtain ⟨_, _, _, renders⟩ := rendered stack isStack
  cases arrives with
  | received _ passage =>
    rcases atHome.means with ⟨attr, _, isPseudo⟩ | ⟨meaning, means⟩
    · exact absurd isPseudo ((Naming.isName_parameterName _ _).ne_pseudo _)
    · exact ⟨meaning, passage, rfl, means⟩
  | read nestedIn =>
    cases atHome with
    | attributeOf resourceIn _ =>
      exact (renders.not_nested_of_resource wellFormed resourceIn nestedIn).elim
  | imported => cases atHome

/-- Values at home that are written alike, but not by a name, are of one leaf. -/
theorem AtHome.eq_of_not_ref (atHomeFirst : tree.AtHome stack first value)
    (atHomeSecond : tree.AtHome stack second value) (isStack : tree.isStack stack = true)
    (notName : ∀ name, value ≠ .ref name) : first = second := by
  obtain ⟨_, _, _, renders⟩ := rendered stack isStack
  cases atHomeFirst with
  | own | resource | parameter | slot | nestedId => exact absurd rfl (notName _)
  | attributeOf resourceIn _ =>
    cases atHomeSecond with
    | attributeOf otherIn _ =>
      rw [renders.claims_unique (renders.claims_resource wellFormed resourceIn)
        (renders.claims_resource wellFormed otherIn)]
  | nestedName nestedIn =>
    cases atHomeSecond with
    | nestedName otherIn =>
      rw [renders.claims_unique (renders.claims_nested wellFormed nestedIn)
        (renders.claims_nested wellFormed otherIn)]

/-- A name of a resource is that of one leaf. -/
theorem Means.resource_unique (meansFirst : tree.Means stack first hops .resource name)
    (meansSecond : tree.Means stack second others .resource name)
    (isStack : tree.isStack stack = true) : first = second := by
  obtain ⟨_, _, _, renders⟩ := rendered stack isStack
  cases meansFirst with
  | resource resourceIn =>
    cases meansSecond with
    | resource otherIn =>
      rw [renders.claims_unique (renders.claims_resource wellFormed resourceIn)
        (renders.claims_resource wellFormed otherIn)]
    | nested nestedIn => exact (renders.not_nested_of_resource wellFormed resourceIn nestedIn).elim
  | nested nestedIn =>
    cases meansSecond with
    | resource resourceIn =>
      exact (renders.not_nested_of_resource wellFormed resourceIn nestedIn).elim
    | nested otherIn =>
      rw [renders.claims_unique (renders.claims_nested wellFormed nestedIn)
        (renders.claims_nested wellFormed otherIn)]

/-- A name of a declared parameter is that of one leaf. -/
theorem Means.parameter_unique (meansFirst : tree.Means stack first hops .parameter name)
    (meansSecond : tree.Means stack second others .parameter name)
    (isStack : tree.isStack stack = true) : first = second := by
  obtain ⟨_, _, _, renders⟩ := rendered stack isStack
  cases meansFirst with
  | parameter parameterIn =>
    cases meansSecond with
    | parameter otherIn =>
      rw [renders.claims_unique (renders.claims_parameter wellFormed parameterIn)
        (renders.claims_parameter wellFormed otherIn)]

variable (records : prepared.wiring.Records tree (tree.Made prepared.wired))

include records in
/-- No declared parameter has the name of one by which a value arrives. -/
theorem Means.not_received_of_parameter
    (meansFirst : tree.Means stack first hops .parameter name)
    (meansSecond : tree.Means stack second others .received name)
    (isStack : tree.isStack stack = true)
    (made : ∀ hop ∈ others, tree.Made prepared.wired hop) : False := by
  obtain ⟨_, _, _, renders⟩ := rendered stack isStack
  cases meansFirst with
  | parameter parameterIn =>
    cases meansSecond with
    | received _ before passage =>
      obtain ⟨_, held⟩ :=
        records.receives (made _ (List.mem_append_right _ List.mem_cons_self)) rfl
      exact renders.not_received_of_parameter wellFormed parameterIn held

variable (separate : prepared.Separate tree)
  (firstText : ∀ text, first.suffixed? = some text → text ∈ prepared.suffixed tree)
  (secondText : ∀ text, second.suffixed? = some text → text ∈ prepared.suffixed tree)
include separate firstText secondText

omit wellFormed rendered in
/-- A name of a slot is that of one leaf. -/
theorem Means.slot_unique (meansFirst : tree.Means stack first hops .slot name)
    (meansSecond : tree.Means stack second others .slot name) : first = second := by
  generalize sameName : name = shared at meansSecond
  cases meansFirst with
  | slot hash slot =>
    cases meansSecond with
    | slot otherHash otherSlot =>
      have sameText := separate _ (firstText _ rfl) _ (secondText _ rfl)
        (Naming.suffix_of_assetParameterName sameName)
      obtain ⟨rfl, rfl⟩ := Naming.assetText_injective sameText
      rfl

include records

/-- Two leaves with one name have merged. -/
theorem Means.merge {one two : Meaning} (meansFirst : tree.Means stack first hops one name)
    (meansSecond : tree.Means stack second others two name) (different : first ≠ second)
    (isStack : tree.isStack stack = true)
    (madeFirst : ∀ hop ∈ hops, tree.Made prepared.wired hop)
    (madeSecond : ∀ hop ∈ others, tree.Made prepared.wired hop) :
    tree.Merge first second stack hops others := by
  by_cases may : one.mayCoincide two = true
  · exact .coincide meansFirst meansSecond may
  cases one with
  | resource =>
    cases two with
    | resource =>
      exact absurd (meansFirst.resource_unique wellFormed rendered meansSecond isStack) different
    | _ => exact absurd rfl may
  | parameter =>
    cases two with
    | parameter =>
      exact absurd (meansFirst.parameter_unique wellFormed rendered meansSecond isStack) different
    | received =>
      exact (meansFirst.not_received_of_parameter wellFormed rendered records meansSecond isStack
        madeSecond).elim
    | _ => exact absurd rfl may
  | slot =>
    cases two with
    | slot => exact absurd (meansFirst.slot_unique separate firstText secondText meansSecond) different
    | received => exact (meansFirst.not_received_of_slot meansSecond).elim
    | _ => exact absurd rfl may
  | received =>
    cases two with
    | parameter =>
      exact (meansSecond.not_received_of_parameter wellFormed rendered records meansFirst isStack
        madeFirst).elim
    | slot => exact (meansSecond.not_received_of_slot meansFirst).elim
    | received => exact meansFirst.merge_received meansSecond
    | _ => exact absurd rfl may

/-- Two leaves that are at home in a stack and written alike there have merged. -/
theorem AtHome.merge (atHomeFirst : tree.AtHome stack first value)
    (atHomeSecond : tree.AtHome stack second value) (different : first ≠ second)
    (isStack : tree.isStack stack = true) : tree.Merge first second stack [] [] := by
  have noHops : ∀ hop ∈ ([] : List Hop), tree.Made prepared.wired hop :=
    fun _ never => nomatch never
  by_cases named : ∃ name, value = .ref name
  · obtain ⟨name, rfl⟩ := named
    rcases atHomeFirst.means with ⟨attr, rfl, isPseudo⟩ | ⟨one, meansFirst⟩
    · rcases atHomeSecond.means with ⟨other, rfl, isOther⟩ | ⟨two, meansSecond⟩
      · rw [isPseudo] at isOther
        have sameAttr : attr = other := by
          cases attr <;> cases other <;> first | rfl | exact absurd isOther (by decide)
        exact absurd (congrArg (Leaf.stack stack) sameAttr) different
      · exact absurd isPseudo (meansSecond.isName.ne_pseudo _)
    · rcases atHomeSecond.means with ⟨other, rfl, isOther⟩ | ⟨two, meansSecond⟩
      · exact absurd isOther (meansFirst.isName.ne_pseudo _)
      · exact meansFirst.merge wellFormed rendered records separate firstText secondText meansSecond
          different isStack noHops noHops
  · exact absurd (atHomeFirst.eq_of_not_ref wellFormed rendered atHomeSecond isStack
      (fun name isRef => named ⟨name, isRef⟩)) different

variable {assembly : Assembly} (assembled : prepared.assembly tree = .ok assembly)
include assembled

omit records separate firstText secondText in
/-- Values that arrive in a stack and are written alike have come by hops with one name. -/
theorem Arrives.shareName {one two : Hop} (arrivesFirst : tree.Arrives one stack value)
    (arrivesSecond : tree.Arrives two stack value) (isStack : tree.isStack stack = true) :
    tree.ShareName stack one two := by
  obtain ⟨_, _, _, renders⟩ := rendered _ isStack
  generalize sameValue : value = last at arrivesSecond
  cases arrivesFirst with
  | received =>
    cases arrivesSecond with
    | received => exact .received (Template.Value.ref.inj sameValue)
    | _ => cases sameValue
  | read nestedIn =>
    cases arrivesSecond with
    | read otherIn =>
      obtain ⟨rfl, sameOutput⟩ := Template.Value.getAtt.inj sameValue
      obtain rfl := renders.claims_unique (renders.claims_nested wellFormed nestedIn)
        (renders.claims_nested wellFormed otherIn)
      exact .shown ((String.append_right_inj _).mp sameOutput)
    | _ => cases sameValue
  | imported _ isStackFirst outermostFirst =>
    cases arrivesSecond with
    | imported _ isStackSecond outermostSecond =>
      obtain ⟨rfl, sameOutput⟩ := Assembly.exportName_injective wellFormed assembled
        isStackFirst (wellFormed.isNested_of_outermost isStackFirst outermostFirst)
        isStackSecond (wellFormed.isNested_of_outermost isStackSecond outermostSecond)
        (Naming.isName_exportOutputName _) (Template.Value.importValue.inj sameValue)
      exact .imported isStackFirst sameOutput
    | _ => cases sameValue

/-- Two leaves that stand in a stack and are written alike there have merged. -/
theorem Stands.merge (standsFirst : tree.Stands first hops stack value)
    (different : first ≠ second) :
    ∀ {others}, tree.Stands second others stack value → tree.isStack stack = true →
      (∀ hop ∈ hops, tree.Made prepared.wired hop) →
      (∀ hop ∈ others, tree.Made prepared.wired hop) →
      tree.Merge first second stack hops others := by
  induction standsFirst with
  | @home stack value atHomeFirst =>
    intro others standsSecond isStack madeFirst madeSecond
    rcases standsSecond.home_or_arrives wellFormed with
      ⟨rfl, atHomeSecond⟩ | ⟨before, hop, start, rfl, _, _, arrives⟩
    · exact atHomeFirst.merge wellFormed rendered records separate firstText secondText atHomeSecond
        different isStack
    · obtain ⟨meaning, passage, rfl, means⟩ :=
        atHomeFirst.means_of_arrives wellFormed rendered isStack arrives
      exact means.merge wellFormed rendered records separate firstText secondText
        (.received second before passage) different isStack madeFirst madeSecond
  | @hop hops start goal crossing passage behind beforeFirst crosses moved inductionHypothesis =>
    intro others standsSecond isStack madeFirst madeSecond
    have arrivesFirst := wellFormed.arrives_of_beyond crosses moved
    rcases standsSecond.home_or_arrives wellFormed with
      ⟨rfl, atHomeSecond⟩ | ⟨before, hop, startSecond, rfl, beforeSecond, crossesSecond,
        arrivesSecond⟩
    · obtain ⟨meaning, other, sameHop, means⟩ :=
        atHomeSecond.means_of_arrives wellFormed rendered isStack arrivesFirst
      rw [sameHop] at madeFirst ⊢
      exact (Means.received first hops other).merge wellFormed rendered records separate firstText
        secondText means different isStack madeFirst madeSecond
    · have madeHere := madeFirst _ (List.mem_append_right _ List.mem_cons_self)
      have madeThere := madeSecond _ (List.mem_append_right _ List.mem_cons_self)
      cases arrivesFirst.shareName wellFormed rendered assembled arrivesSecond isStack with
      | received sameName => exact .received sameName
      | shown sameName => exact .shown sameName
      | @imported exporter _ other isStackExporter sameOutput =>
        cases crosses with
        | across =>
          cases crossesSecond with
          | across =>
            -- one name of an export means one exported value, which the leaves share before it
            have sameText := separate _ (Prepared.suffixed_of_made madeHere rfl) _
              (Prepared.suffixed_of_made madeThere rfl)
              (Naming.suffix_of_exportOutputName sameOutput)
            have samePassage : passage.value = other.value :=
              (beforeFirst.primitive wellFormed).written_injective
                (beforeSecond.primitive wellFormed) (Naming.exportText_injective sameText)
            exact .imported (inductionHypothesis (samePassage ▸ beforeSecond) isStackExporter
              (fun hop member => madeFirst hop (List.mem_append_left _ member))
              (fun hop member => madeSecond hop (List.mem_append_left _ member)))

end Deciding

end Tree

end StackSynth
