/-
This file says what expressions are. An object that refers to something is an expression as a whole:
it stands for a value of a construct, a stack or an asset, or for a pseudo parameter. All other JSON
stands for itself up to what is written in it. That a value has been found for an expression means
nothing else, so what holds of references, and passes from parts to the whole, holds of every
expression with its value.
-/

import Mathlib.Data.List.TakeWhile
import StackSynth.Definition.Expression
import StackSynth.Proofs.Construct.Assets

namespace StackSynth

open Outcome

namespace Definition

/-! ### Taking texts apart -/

section Splitting

variable {separator : Char} {text before after : String}

theorem drop_length_takeWhile {α : Type} (holds : α → Bool) (items : List α) :
    items.drop (items.takeWhile holds).length = items.dropWhile holds := by
  induction items with
  | nil => rfl
  | cons item rest inductionHypothesis =>
    by_cases passes : holds item = true
    · simpa [passes] using inductionHypothesis
    · simp [passes]

/-- What stands behind the last place of a character does not hold it, and makes up the text
together with what stands before it. -/
theorem splitAtLast?_eq_some (split : splitAtLast? separator text = some (before, after)) :
    text.toList = before.toList ++ separator :: after.toList ∧ separator ∉ after.toList := by
  rw [splitAtLast?, drop_length_takeWhile] at split
  have whole := List.takeWhile_append_dropWhile (p := (· ≠ separator)) (l := text.toList.reverse)
  have stops := List.head?_dropWhile_not (· ≠ separator) text.toList.reverse
  split at split
  · cases split
  · rename_i last rest found
    cases split
    rw [found] at whole stops
    have isSeparator : last = separator := by simpa using stops
    rw [isSeparator] at whole
    rw [String.toList_ofList, String.toList_ofList, List.mem_reverse]
    refine ⟨?_, fun member => by simpa using List.mem_takeWhile_imp member⟩
    rw [← List.reverse_reverse text.toList]
    nth_rewrite 1 [← whole]
    simp

end Splitting

/-! ### References -/

/-- Whether a value is the name of a pseudo parameter. -/
def namesPseudo : Json → Bool
  | .string name => (PseudoParameter.ofName? name).isSome
  | _ => false

/-- Whether a value is replaced as a whole: an object with one member of certain names, but not with
a `Ref` to a pseudo parameter, or with an asset and one of its attributes as its only two
members. -/
def isReference : Json → Bool
  | .object [(name, argument)] =>
    name ∈ ["Fn::GetAtt", "Pseudo", "StackId", "StackName"] ||
      (name = "Ref" && !namesPseudo argument)
  | .object members =>
    members.length = 2 && Fields.has "Asset" members && Fields.has "Attribute" members
  | _ => false

/-- What a reference stands for. -/
inductive Scope.Refers (scope : Scope) : Json → Deferred → Prop where
  | construct {path : String} {node : NodeId} (named : scope.paths.get? path = some node) :
    Refers scope (.object [("Ref", .string path)]) (.reference node)
  | attribute {path attr : String} {node : NodeId} (named : scope.paths.get? path = some node) :
    Refers scope (.object [("Fn::GetAtt", .array [.string path, .string attr])])
      (.getAtt node attr)
  /-- The name of the attribute stands behind the last dot. -/
  | dotted {path attr text : String} {node : NodeId} (named : scope.paths.get? path = some node)
    (split : text.toList = path.toList ++ '.' :: attr.toList) (last : '.' ∉ attr.toList) :
    Refers scope (.object [("Fn::GetAtt", .string text)]) (.getAtt node attr)
  | pseudo (parameter : PseudoParameter) :
    Refers scope (.object [("Pseudo", .string parameter.name)]) (.pseudo parameter)
  | stackId {path : String} {node : NodeId} (named : scope.paths.get? path = some node) :
    Refers scope (.object [("StackId", .string path)]) (.leaf (.stack node .id))
  | stackName {path : String} {node : NodeId} (named : scope.paths.get? path = some node) :
    Refers scope (.object [("StackName", .string path)]) (.leaf (.stack node .name))
  /-- The members may come in either order. -/
  | asset {members : List (String × Json)} {path attr : String} {node top : NodeId} {found : Node}
    {hash : ContentHash} {packaging : Asset.Packaging} {value : Deferred}
    (isOf : Fields.get? "Asset" members = some (.string path))
    (reads : Fields.get? "Attribute" members = some (.string attr))
    (named : scope.paths.get? path = some node) (place : scope.app.tree.get? node = some found)
    (shape : found.construct = .asset hash packaging)
    (outermost : scope.app.tree.topLevelOf? node = some top)
    (known : assetAttribute? packaging ⟨node, top, hash⟩ attr = some value) :
    Refers scope (.object members) value

namespace Intrinsic

/-- A function is found under its own name. -/
theorem eq_of_ofName? {name : String} {intrinsic : Intrinsic}
    (found : ofName? name = some intrinsic) : name = intrinsic.name := by
  have same := List.find?_some found
  exact (of_decide_eq_true same).symm

theorem ne_of_ofName?_eq_none {name : String} (absent : ofName? name = none)
    (intrinsic : Intrinsic) : name ≠ intrinsic.name := by
  have notNamed := List.find?_eq_none.mp absent intrinsic (by
    cases intrinsic with
    | stackIdentity attr => cases attr <;> decide
    | _ => decide)
  exact fun same => notNamed (decide_eq_true same.symm)

end Intrinsic

/-- An object of another name than those of references and functions stands for itself. -/
theorem isReference_of_ofName?_eq_none {name : String} {argument : Json}
    (absent : Intrinsic.ofName? name = none) : isReference (.object [(name, argument)]) = false := by
  have apart := Intrinsic.ne_of_ofName?_eq_none absent
  have notGetAtt : name ≠ "Fn::GetAtt" := apart .getAtt
  have notPseudo : name ≠ "Pseudo" := apart .pseudo
  have notId : name ≠ "StackId" := apart (.stackIdentity .id)
  have notName : name ≠ "StackName" := apart (.stackIdentity .name)
  have notReference : name ≠ "Ref" := apart .reference
  simp [isReference, notGetAtt, notPseudo, notId, notName, notReference]

/-- An object of several members, or of none, is a reference exactly if it reads an asset. -/
theorem isReference_eq_isSome {members : List (String × Json)}
    (plain : ∀ name argument, members ≠ [(name, argument)]) :
    isReference (.object members) = (assetArguments? members).isSome := by
  match members with
  | [] => rfl
  | [(name, argument)] => exact absurd rfl (plain name argument)
  | [first, second] =>
    show (Fields.has "Asset" [first, second] && Fields.has "Attribute" [first, second]) =
      (assetArguments? [first, second]).isSome
    rw [Fields.has, Fields.has, assetArguments?, assetMember, attributeMember]
    cases Fields.get? "Asset" [first, second] with
    | none => rfl
    | some asset => cases Fields.get? "Attribute" [first, second] <;> rfl
  | first :: second :: third :: rest => simp [isReference, assetArguments?]

end Definition

theorem PseudoParameter.eq_of_ofName? {name : String} {parameter : PseudoParameter}
    (found : ofName? name = some parameter) : name = parameter.name := by
  have same := List.find?_some found
  exact (of_decide_eq_true same).symm

namespace Definition

namespace Scope

variable {scope : Scope} {site : String} {argument : Json} {value : Deferred}

theorem find_eq_ok {scope : Scope} {path : String} {node : NodeId} :
    scope.find site path = .ok node ↔ scope.paths.get? path = some node := by
  rw [Scope.find]
  cases scope.paths.get? path with
  | none => exact iff_of_false nofun nofun
  | some other =>
    constructor
    · intro same
      cases same
      rfl
    · intro same
      cases same
      rfl

theorem textArgument_eq_ok {function text : String}
    (found : textArgument site function argument = .ok text) : argument = .string text := by
  cases argument <;> cases found
  rfl

/-- A reference by name is to a pseudo parameter, which it is written like, or to a construct. -/
theorem referenceValue_eq_ok (found : scope.referenceValue site argument = .ok value) :
    (∃ parameter : PseudoParameter, argument = .string parameter.name ∧
      value = .pseudo parameter) ∨
      (namesPseudo argument = false ∧ scope.Refers (.object [("Ref", argument)]) value) := by
  obtain ⟨name, isName, byName⟩ := bind_eq_ok.mp found
  rw [textArgument_eq_ok isName]
  split at byName
  · rename_i parameter isPseudo
    cases byName
    exact .inl ⟨parameter, by rw [PseudoParameter.eq_of_ofName? isPseudo], rfl⟩
  · rename_i noPseudo
    obtain ⟨node, known, byName⟩ := bind_eq_ok.mp byName
    obtain ⟨construct, _, byName⟩ := bind_eq_ok.mp (mapError_eq_ok.mp byName)
    have refers : scope.Refers (.object [("Ref", .string name)]) (.reference node) :=
      .construct (find_eq_ok.mp known)
    refine .inr ⟨by rw [namesPseudo, noPseudo]; rfl, ?_⟩
    split at byName <;> cases byName <;> exact refers

theorem refers_of_attributeValue (found : scope.attributeValue site argument = .ok value) :
    scope.Refers (.object [("Fn::GetAtt", argument)]) value := by
  obtain ⟨⟨path, name⟩, isPair, found⟩ := bind_eq_ok.mp found
  obtain ⟨node, known, found⟩ := bind_eq_ok.mp found
  obtain ⟨construct, _, found⟩ := bind_eq_ok.mp (mapError_eq_ok.mp found)
  have isAttribute : value = .getAtt node name := by
    split at found
    · split at found <;> cases found
      rfl
    · cases found
  rw [isAttribute]
  unfold attributeArgument at isPair
  split at isPair
  · cases isPair
    exact .attribute (find_eq_ok.mp known)
  · split at isPair
    · rename_i parts
      cases isPair
      obtain ⟨split, last⟩ := splitAtLast?_eq_some parts
      exact .dotted (find_eq_ok.mp known) split last
    · cases isPair
  · cases isPair

theorem refers_of_pseudoValue (found : pseudoValue site argument = .ok value) :
    scope.Refers (.object [("Pseudo", argument)]) value := by
  obtain ⟨name, isName, byName⟩ := bind_eq_ok.mp found
  rw [textArgument_eq_ok isName]
  split at byName
  · rename_i parameter isPseudo
    cases byName
    rw [PseudoParameter.eq_of_ofName? isPseudo]
    exact .pseudo parameter
  · cases byName

theorem refers_of_identityValue {attr : StackAttribute}
    (found : scope.identityValue site attr argument = .ok value) :
    scope.Refers (.object [((Intrinsic.stackIdentity attr).name, argument)]) value := by
  obtain ⟨path, isPath, atPath⟩ := bind_eq_ok.mp found
  rw [textArgument_eq_ok isPath]
  obtain ⟨stack, known, atPath⟩ := bind_eq_ok.mp atPath
  obtain ⟨construct, _, atPath⟩ := bind_eq_ok.mp (mapError_eq_ok.mp atPath)
  split at atPath
  · cases atPath
    cases attr with
    | id => exact .stackId (find_eq_ok.mp known)
    | name => exact .stackName (find_eq_ok.mp known)
  · cases atPath

/-- The arguments of the value of an asset are the two members of an object. -/
theorem assetArguments?_eq_some {members : List (String × Json)} {asset attr : Json}
    (arguments : assetArguments? members = some (asset, attr)) : members.length = 2 ∧
      Fields.get? "Asset" members = some asset ∧ Fields.get? "Attribute" members = some attr := by
  unfold assetArguments? at arguments
  split at arguments
  · obtain ⟨ofAsset, isOf, arguments⟩ := Option.bind_eq_some_iff.mp arguments
    obtain ⟨ofAttribute, reads, same⟩ := Option.bind_eq_some_iff.mp arguments
    cases same
    exact ⟨rfl, isOf, reads⟩
  · cases arguments

theorem refers_of_assetValue {members : List (String × Json)} {asset attr : Json}
    (arguments : assetArguments? members = some (asset, attr))
    (found : scope.assetValue site asset attr = .ok value) :
    scope.Refers (.object members) value := by
  obtain ⟨_, isOf, reads⟩ := assetArguments?_eq_some arguments
  obtain ⟨path, isPath, found⟩ := bind_eq_ok.mp found
  obtain ⟨node, named, found⟩ := bind_eq_ok.mp found
  obtain ⟨name, isName, found⟩ := bind_eq_ok.mp found
  obtain ⟨construct, place, found⟩ := bind_eq_ok.mp found
  rw [textArgument_eq_ok isPath] at isOf
  rw [textArgument_eq_ok isName] at reads
  have place := mapError_eq_ok.mp place
  split at found
  · rename_i hash packaging shape
    obtain ⟨handle, handled, found⟩ := bind_eq_ok.mp found
    obtain ⟨again, placeAgain, handled⟩ := bind_eq_ok.mp (mapError_eq_ok.mp handled)
    rw [place] at placeAgain
    cases placeAgain
    rw [shape] at handled
    dsimp only at handled
    split at handled
    · rename_i top outermost
      cases handled
      split at found
      · rename_i known
        cases found
        exact .asset isOf reads (find_eq_ok.mp named) (Tree.find_eq_ok.mp place) shape outermost
          known
      · cases found
    · cases handled
  · cases found

/-! ### Functions -/

theorem joinValue_eq_ok {argument : Json} {value : Deferred}
    (found : scope.joinValue site argument = .ok value) : ∃ separator parts results,
      argument = .array [.string separator, .array parts] ∧
        scope.values site parts = .ok results ∧ value = .join separator results := by
  unfold Scope.joinValue at found
  split at found
  · obtain ⟨results, foundParts, same⟩ := bind_eq_ok.mp found
    exact ⟨_, _, results, rfl, foundParts, (pure_eq_ok.mp same).symm⟩
  · cases found
  · cases found

theorem eq_natural_of_indexOf? {index : Json} {number : Nat} (isIndex : indexOf? index = some number) :
    index = Json.natural number := by
  unfold indexOf? at isIndex
  split at isIndex
  · rename_i whole
    split at isIndex
    · rename_i bounds
      cases isIndex
      rw [Json.natural, Int.toNat_of_nonneg bounds.1]
    · cases isIndex
  · cases isIndex

theorem selectValue_eq_ok {argument : Json} {value : Deferred}
    (found : scope.selectValue site argument = .ok value) : ∃ items number inner,
      argument = .array [Json.natural number, items] ∧
        scope.value site items = .ok inner ∧ value = .select number inner := by
  unfold Scope.selectValue at found
  split at found
  · split at found
    · rename_i isIndex
      obtain ⟨inner, foundItems, same⟩ := bind_eq_ok.mp found
      rw [eq_natural_of_indexOf? isIndex]
      exact ⟨_, _, inner, rfl, foundItems, (pure_eq_ok.mp same).symm⟩
    · cases found
  · cases found

theorem splitValue_eq_ok {argument : Json} {value : Deferred}
    (found : scope.splitValue site argument = .ok value) : ∃ separator source inner,
      argument = .array [.string separator, source] ∧
        scope.value site source = .ok inner ∧ value = .split separator inner := by
  unfold Scope.splitValue at found
  split at found
  · obtain ⟨inner, foundSource, same⟩ := bind_eq_ok.mp found
    exact ⟨_, _, inner, rfl, foundSource, (pure_eq_ok.mp same).symm⟩
  · cases found
  · cases found

/-! ### Expressions -/

/-- Values are found for items one by one. -/
theorem forall₂_of_values (related : Json → Deferred → Prop) {items : List Json}
    (each : ∀ item ∈ items, ∀ result, scope.value site item = .ok result → related item result) :
    ∀ {results : List Deferred}, scope.values site items = .ok results →
      List.Forall₂ related items results := by
  induction items with
  | nil =>
    intro results found
    cases found
    exact .nil
  | cons item rest inductionHypothesis =>
    intro results found
    obtain ⟨first, foundFirst, found⟩ := bind_eq_ok.mp found
    obtain ⟨others, foundRest, same⟩ := bind_eq_ok.mp found
    cases same
    exact .cons (each item List.mem_cons_self first foundFirst)
      (inductionHypothesis (fun other member => each other (List.mem_cons_of_mem _ member))
        foundRest)

/-- Values are found for members one by one, under the names of these. -/
theorem forall₂_of_memberValues (related : Json → Deferred → Prop)
    {members : List (String × Json)} (each : ∀ member ∈ members, ∀ result,
      scope.value site member.2 = .ok result → related member.2 result) :
    ∀ {results : List (String × Deferred)}, scope.memberValues site members = .ok results →
      List.Forall₂ (fun member result => member.1 = result.1 ∧ related member.2 result.2) members
        results := by
  induction members with
  | nil =>
    intro results found
    cases found
    exact .nil
  | cons member rest inductionHypothesis =>
    intro results found
    obtain ⟨name, expression⟩ := member
    obtain ⟨first, foundFirst, found⟩ := bind_eq_ok.mp found
    obtain ⟨others, foundRest, same⟩ := bind_eq_ok.mp found
    cases same
    exact .cons ⟨rfl, each (name, expression) List.mem_cons_self first foundFirst⟩
      (inductionHypothesis (fun other member => each other (List.mem_cons_of_mem _ member))
        foundRest)

section Induction

variable {motive : Json → Deferred → Prop}
  (scalar : ∀ json, (∀ items, json ≠ .array items) → (∀ members, json ≠ .object members) →
    motive json (.literal json))
  (reference : ∀ json value, isReference json = true → scope.Refers json value →
    scope.value site json = .ok value → motive json value)
  (pseudo : ∀ parameter : PseudoParameter,
    motive (.object [("Ref", .string parameter.name)]) (.pseudo parameter))
  (join : ∀ separator parts results, List.Forall₂ motive parts results →
    motive (.object [("Fn::Join", .array [.string separator, .array parts])])
      (.join separator results))
  (select : ∀ index items result, motive items result →
    motive (.object [("Fn::Select", .array [Json.natural index, items])]) (.select index result))
  (split : ∀ separator source result, motive source result →
    motive (.object [("Fn::Split", .array [.string separator, source])])
      (.split separator result))
  (array : ∀ items results, List.Forall₂ motive items results →
    motive (.array items) (.list results))
  (object : ∀ members results, isReference (.object members) = false →
    List.Forall₂ (fun member result => member.1 = result.1 ∧ motive member.2 result.2) members
      results → motive (.object members) (.object results))

section

include reference pseudo join select split object

/-- The step of `value_induction` for an object with one member. -/
theorem motive_single {name : String} {argument : Json} {value : Deferred}
    (smaller : ∀ inner : Json, sizeOf inner ≤ sizeOf argument → ∀ result,
      scope.value site inner = .ok result → motive inner result)
    (found : scope.value site (.object [(name, argument)]) = .ok value) :
    motive (.object [(name, argument)]) value := by
  have whole := found
  rw [Scope.value] at found
  split at found <;> rename_i isNamed
  · cases Intrinsic.eq_of_ofName? isNamed
    rcases referenceValue_eq_ok found with ⟨parameter, rfl, rfl⟩ | ⟨noPseudo, refers⟩
    · exact pseudo parameter
    · exact reference _ _ (by simp [isReference, Intrinsic.name, noPseudo]) refers whole
  · cases Intrinsic.eq_of_ofName? isNamed
    exact reference _ _ (by simp [isReference, Intrinsic.name]) (refers_of_attributeValue found)
      whole
  · cases Intrinsic.eq_of_ofName? isNamed
    obtain ⟨separator, parts, results, rfl, foundParts, rfl⟩ := joinValue_eq_ok found
    refine join separator parts results
      (forall₂_of_values motive (fun item member => smaller item ?_) foundParts)
    have less := List.sizeOf_lt_of_mem member
    simp
    omega
  · cases Intrinsic.eq_of_ofName? isNamed
    obtain ⟨items, index, inner, rfl, foundItems, rfl⟩ := selectValue_eq_ok found
    exact select index items inner (smaller items (by simp; omega) inner foundItems)
  · cases Intrinsic.eq_of_ofName? isNamed
    obtain ⟨separator, source, inner, rfl, foundSource, rfl⟩ := splitValue_eq_ok found
    exact split separator source inner (smaller source (by simp; omega) inner foundSource)
  · cases Intrinsic.eq_of_ofName? isNamed
    exact reference _ _ (by simp [isReference, Intrinsic.name]) (refers_of_pseudoValue found) whole
  · rename_i attr
    cases Intrinsic.eq_of_ofName? isNamed
    exact reference _ _ (by cases attr <;> simp [isReference, Intrinsic.name])
      (refers_of_identityValue found) whole
  · obtain ⟨inner, foundInner, same⟩ := bind_eq_ok.mp found
    cases same
    exact object _ _ (isReference_of_ofName?_eq_none isNamed)
      (.cons ⟨rfl, smaller argument (Nat.le_refl _) inner foundInner⟩ .nil)

end

include scalar reference pseudo join select split array object

/-- What holds of references with what they stand for, and of a whole if it holds of its parts,
holds of every expression with its value. -/
theorem value_induction {expression : Json} {value : Deferred}
    (found : scope.value site expression = .ok value) : motive expression value := by
  induction size : sizeOf expression using Nat.strongRecOn generalizing expression value with
  | _ bound inductionHypothesis =>
    subst size
    have smaller : ∀ inner : Json, sizeOf inner < sizeOf expression → ∀ result,
        scope.value site inner = .ok result → motive inner result :=
      fun inner less result found => inductionHypothesis _ less found rfl
    cases expression with
    | array items =>
      obtain ⟨results, foundItems, same⟩ := bind_eq_ok.mp found
      cases same
      refine array items results
        (forall₂_of_values motive (fun item member => smaller item ?_) foundItems)
      have less := List.sizeOf_lt_of_mem member
      simp only [Json.array.sizeOf_spec]
      omega
    | object members =>
      have whole := found
      unfold Scope.value at found
      split at found
      · rename_i never
        cases never
      · rename_i name argument same
        cases same
        refine motive_single reference pseudo join select split object
          (fun inner less => smaller inner ?_) whole
        simp
        omega
      · rename_i plain same
        cases same
        have isRead := isReference_eq_isSome fun name argument same => plain name argument same
        split at found
        · rename_i arguments
          exact reference _ _ (by rw [isRead, arguments]; rfl)
            (refers_of_assetValue arguments found) whole
        · rename_i noArguments
          obtain ⟨results, foundMembers, same⟩ := bind_eq_ok.mp found
          cases same
          refine object members results (by rw [isRead, noArguments]; rfl)
            (forall₂_of_memberValues motive (fun member listed => smaller member.2 ?_)
              foundMembers)
          obtain ⟨name, inner⟩ := member
          have less := List.sizeOf_lt_of_mem listed
          simp only [Prod.mk.sizeOf_spec] at less
          simp only [Json.object.sizeOf_spec]
          omega
      · rename_i never
        exact absurd rfl (never members)
    | _ =>
      cases found
      exact scalar _ nofun nofun

end Induction

end Scope

end Definition

end StackSynth
