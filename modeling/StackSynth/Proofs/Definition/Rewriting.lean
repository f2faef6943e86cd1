/-
This file proves that expressions are rewritten in place. Whatever its leaves are resolved to, the
value of an expression is written like the expression, with every reference replaced by what the
value it stands for is written like, and all else as it was. So JSON without references is written
as it was, and reads no leaf.
-/

import StackSynth.Definition.Build
import StackSynth.Proofs.Definition.Expressions

namespace StackSynth

open Outcome

namespace Definition

/-! ### Replacing references -/

mutual

/-- The JSON with another value for every reference in it. -/
def rewrite (replacement : Json → Json) : Json → Json
  | .array items => .array (rewriteItems replacement items)
  | .object members =>
    if isReference (.object members) then replacement (.object members)
    else .object (rewriteMembers replacement members)
  | scalar => scalar

/-- `rewrite` of every item. -/
def rewriteItems (replacement : Json → Json) : List Json → List Json
  | [] => []
  | item :: rest => rewrite replacement item :: rewriteItems replacement rest

/-- `rewrite` of every member's value. -/
def rewriteMembers (replacement : Json → Json) : List (String × Json) → List (String × Json)
  | [] => []
  | (name, member) :: rest =>
    (name, rewrite replacement member) :: rewriteMembers replacement rest

end

mutual

/-- The references in JSON from left to right. -/
def references : Json → List Json
  | .array items => referencesOfItems items
  | .object members =>
    if isReference (.object members) then [.object members] else referencesOfMembers members
  | _ => []

/-- The references in items. -/
def referencesOfItems : List Json → List Json
  | [] => []
  | item :: rest => references item ++ referencesOfItems rest

/-- The references in the values of members. -/
def referencesOfMembers : List (String × Json) → List Json
  | [] => []
  | (_, member) :: rest => references member ++ referencesOfMembers rest

end

mutual

/-- Without references nothing is replaced. -/
theorem rewrite_of_references_eq_nil (replacement : Json → Json) :
    ∀ json : Json, references json = [] → rewrite replacement json = json
  | .array items, free => by
    rw [references] at free
    rw [rewrite, rewriteItems_of_references_eq_nil replacement items free]
  | .object members, free => by
    rw [references] at free
    split at free
    · cases free
    · rename_i plain
      rw [rewrite, if_neg plain, rewriteMembers_of_references_eq_nil replacement members free]
  | .null, _ | .bool _, _ | .number _, _ | .string _, _ => rfl

theorem rewriteItems_of_references_eq_nil (replacement : Json → Json) :
    ∀ items : List Json, referencesOfItems items = [] → rewriteItems replacement items = items
  | [], _ => rfl
  | item :: rest, free => by
    rw [referencesOfItems, List.append_eq_nil_iff] at free
    rw [rewriteItems, rewrite_of_references_eq_nil replacement item free.1,
      rewriteItems_of_references_eq_nil replacement rest free.2]

theorem rewriteMembers_of_references_eq_nil (replacement : Json → Json) :
    ∀ members : List (String × Json), referencesOfMembers members = [] →
      rewriteMembers replacement members = members
  | [], _ => rfl
  | (name, member) :: rest, free => by
    rw [referencesOfMembers, List.append_eq_nil_iff] at free
    rw [rewriteMembers, rewrite_of_references_eq_nil replacement member free.1,
      rewriteMembers_of_references_eq_nil replacement rest free.2]

end

section

variable {replacement : Json → Json} {json argument : Json} {name : String}

theorem rewrite_of_isReference (isReplaced : isReference json = true) :
    rewrite replacement json = replacement json := by
  cases json with
  | object members => rw [rewrite, if_pos isReplaced]
  | _ => cases isReplaced

theorem references_of_isReference (isReplaced : isReference json = true) :
    references json = [json] := by
  cases json with
  | object members => rw [references, if_pos isReplaced]
  | _ => cases isReplaced

/-- In an object with one member that is no reference, only what is in the member is replaced. -/
theorem rewrite_single (plain : isReference (.object [(name, argument)]) = false) :
    rewrite replacement (.object [(name, argument)]) =
      .object [(name, rewrite replacement argument)] := by
  rw [rewrite, if_neg (by simp [plain]), rewriteMembers, rewriteMembers]

theorem references_single (plain : isReference (.object [(name, argument)]) = false) :
    references (.object [(name, argument)]) = references argument := by
  rw [references, if_neg (by simp [plain]), referencesOfMembers, referencesOfMembers,
    List.append_nil]

end

/-! ### What references become -/

namespace Scope

variable {scope : Scope} {site : String} {ε : Type} {view : Leaf → Except ε Template.Value}
  {replacement : Json → Json} {expression : Json} {value : Deferred}

/-- References are replaced by what the values they stand for are written like when their leaves
are resolved. -/
def Replaces (scope : Scope) (view : Leaf → Except ε Template.Value) (replacement : Json → Json)
    (references : List Json) : Prop :=
  ∀ reference ∈ references, ∃ meant shown, scope.Refers reference meant ∧
    meant.resolve view = .ok shown ∧ replacement reference = shown.toJson

/-- What an expression is written like when its leaves are resolved. -/
def resolvedJson (scope : Scope) (site : String) (view : Leaf → Except ε Template.Value)
    (expression : Json) : Json :=
  match scope.value site expression with
  | .ok value =>
    match value.resolve view with
    | .ok shown => shown.toJson
    | .error _ => expression
  | .error _ => expression

theorem resolvedJson_eq {shown : Template.Value} (found : scope.value site expression = .ok value)
    (resolved : value.resolve view = .ok shown) :
    scope.resolvedJson site view expression = shown.toJson := by
  rw [resolvedJson, found]
  dsimp only
  rw [resolved]

/-- A template value is written like an expression up to the references in it. -/
structure Rewritten (scope : Scope) (view : Leaf → Except ε Template.Value)
    (replacement : Json → Json) (expression : Json) (shown : Template.Value) : Prop where
  inPlace : shown.toJson = rewrite replacement expression
  replaces : scope.Replaces view replacement (references expression)

/-- An expression that is rewritten into whatever its value is resolved to. -/
def Keeps (scope : Scope) (view : Leaf → Except ε Template.Value) (replacement : Json → Json)
    (expression : Json) (value : Deferred) : Prop :=
  ∀ shown, value.resolve view = .ok shown → scope.Rewritten view replacement expression shown

theorem Replaces.append {first second : List Json}
    (replaces : scope.Replaces view replacement first)
    (replacesToo : scope.Replaces view replacement second) :
    scope.Replaces view replacement (first ++ second) :=
  fun reference member =>
    (List.mem_append.mp member).elim (replaces reference) (replacesToo reference)

theorem replaces_nil : scope.Replaces view replacement [] := fun _ never => nomatch never

theorem rewritten_items {items : List Json} {values : List Deferred}
    (keeps : List.Forall₂ (scope.Keeps view replacement) items values) :
    ∀ {shown : List Template.Value}, Deferred.resolveItems view values = .ok shown →
      Template.Value.toJsonItems shown = rewriteItems replacement items ∧
        scope.Replaces view replacement (referencesOfItems items) := by
  induction keeps with
  | nil =>
    intro shown resolved
    cases resolved
    exact ⟨rfl, replaces_nil⟩
  | cons head _ inductionHypothesis =>
    intro shown resolved
    obtain ⟨first, resolvedFirst, resolved⟩ := bind_eq_ok.mp resolved
    obtain ⟨others, resolvedRest, same⟩ := bind_eq_ok.mp resolved
    cases same
    obtain ⟨inPlace, replaces⟩ := head first resolvedFirst
    obtain ⟨inPlaceRest, replacesRest⟩ := inductionHypothesis resolvedRest
    refine ⟨?_, replaces.append replacesRest⟩
    rw [Template.Value.toJsonItems, rewriteItems, inPlace, inPlaceRest]

theorem rewritten_members {members : List (String × Json)} {values : List (String × Deferred)}
    (keeps : List.Forall₂ (fun member value => member.1 = value.1 ∧
      scope.Keeps view replacement member.2 value.2) members values) :
    ∀ {shown : List (String × Template.Value)}, Deferred.resolveMembers view values = .ok shown →
      Template.Value.toJsonMembers shown = rewriteMembers replacement members ∧
        scope.Replaces view replacement (referencesOfMembers members) := by
  induction keeps with
  | nil =>
    intro shown resolved
    cases resolved
    exact ⟨rfl, replaces_nil⟩
  | @cons member value _ _ head _ inductionHypothesis =>
    intro shown resolved
    obtain ⟨name, expression⟩ := member
    obtain ⟨nameToo, value⟩ := value
    obtain ⟨rfl, keepsHead⟩ := head
    obtain ⟨first, resolvedFirst, resolved⟩ := bind_eq_ok.mp resolved
    obtain ⟨others, resolvedRest, same⟩ := bind_eq_ok.mp resolved
    cases same
    obtain ⟨inPlace, replaces⟩ := keepsHead first resolvedFirst
    obtain ⟨inPlaceRest, replacesRest⟩ := inductionHypothesis resolvedRest
    refine ⟨?_, replaces.append replacesRest⟩
    rw [Template.Value.toJsonMembers, rewriteMembers, inPlace, inPlaceRest]

/-- A function is written under its name, with what has become of its argument. -/
theorem rewritten_function {name : String} {argument : Json} {shown : Template.Value}
    (plain : isReference (.object [(name, argument)]) = false)
    (inPlace : shown.toJson =
      Template.Value.function name (rewrite replacement argument))
    (replaces : scope.Replaces view replacement (references argument)) :
    scope.Rewritten view replacement (.object [(name, argument)]) shown :=
  ⟨inPlace.trans (rewrite_single plain).symm, references_single plain ▸ replaces⟩

/-- An expression is rewritten by what its references are resolved to. -/
theorem keeps_value (found : scope.value site expression = .ok value) :
    scope.Keeps view (scope.resolvedJson site view) expression value := by
  refine value_induction (motive := scope.Keeps view (scope.resolvedJson site view)) ?scalar
    ?reference ?pseudo ?join ?select ?split ?array ?object found
  case scalar =>
    intro json notArray notObject shown resolved
    cases resolved
    cases json with
    | array items => exact absurd rfl (notArray items)
    | object members => exact absurd rfl (notObject members)
    | _ => exact ⟨rfl, replaces_nil⟩
  case reference =>
    intro json value isReplaced refers found shown resolved
    have becomes : scope.resolvedJson site view json = shown.toJson :=
      resolvedJson_eq found resolved
    refine ⟨by rw [rewrite_of_isReference isReplaced, becomes], fun reference member => ?_⟩
    rw [references_of_isReference isReplaced, List.mem_singleton] at member
    exact ⟨value, shown, member ▸ refers, resolved, member ▸ becomes⟩
  case pseudo =>
    intro parameter shown resolved
    cases resolved
    exact rewritten_function (by cases parameter <;> rfl) rfl replaces_nil
  case join =>
    intro separator parts results keeps shown resolved
    obtain ⟨values, resolvedParts, same⟩ := bind_eq_ok.mp resolved
    cases same
    obtain ⟨inPlace, replaces⟩ := rewritten_items keeps resolvedParts
    refine rewritten_function rfl ?_ ?_
    · rw [Template.Value.toJson, inPlace]
      rfl
    · simpa [references, referencesOfItems] using replaces
  case select =>
    intro index items result keeps shown resolved
    obtain ⟨list, resolvedItems, same⟩ := bind_eq_ok.mp resolved
    cases same
    obtain ⟨inPlace, replaces⟩ := keeps list resolvedItems
    refine rewritten_function rfl ?_ ?_
    · rw [Template.Value.toJson, inPlace]
      rfl
    · simpa [references, referencesOfItems, Json.natural] using replaces
  case split =>
    intro separator source result keeps shown resolved
    obtain ⟨text, resolvedSource, same⟩ := bind_eq_ok.mp resolved
    cases same
    obtain ⟨inPlace, replaces⟩ := keeps text resolvedSource
    refine rewritten_function rfl ?_ ?_
    · rw [Template.Value.toJson, inPlace]
      rfl
    · simpa [references, referencesOfItems] using replaces
  case array =>
    intro items results keeps shown resolved
    obtain ⟨values, resolvedItems, same⟩ := bind_eq_ok.mp resolved
    cases same
    obtain ⟨inPlace, replaces⟩ := rewritten_items keeps resolvedItems
    exact ⟨by rw [Template.Value.toJson, rewrite, inPlace], replaces⟩
  case object =>
    intro members results plain keeps shown resolved
    obtain ⟨values, resolvedMembers, same⟩ := bind_eq_ok.mp resolved
    cases same
    obtain ⟨inPlace, replaces⟩ := rewritten_members keeps resolvedMembers
    have notReplaced : ¬isReference (.object members) = true := by simp [plain]
    refine ⟨by rw [Template.Value.toJson, rewrite, if_neg notReplaced, inPlace], ?_⟩
    rw [references, if_neg notReplaced]
    exact replaces

theorem leavesOfItems_eq_nil {items : List Json} {values : List Deferred}
    (each : List.Forall₂ (fun item value => references item = [] → value.leaves = []) items
      values) : referencesOfItems items = [] → Deferred.leavesOfItems values = [] := by
  induction each with
  | nil => exact fun _ => rfl
  | cons head _ inductionHypothesis =>
    intro free
    rw [referencesOfItems, List.append_eq_nil_iff] at free
    rw [Deferred.leavesOfItems, head free.1, inductionHypothesis free.2, List.append_nil]

theorem leavesOfMembers_eq_nil {members : List (String × Json)}
    {values : List (String × Deferred)} (each : List.Forall₂ (fun member value =>
      member.1 = value.1 ∧ (references member.2 = [] → value.2.leaves = [])) members values) :
    referencesOfMembers members = [] → Deferred.leavesOfMembers values = [] := by
  induction each with
  | nil => exact fun _ => rfl
  | cons head _ inductionHypothesis =>
    intro free
    rw [referencesOfMembers, List.append_eq_nil_iff] at free
    rw [Deferred.leavesOfMembers, head.2 free.1, inductionHypothesis free.2, List.append_nil]

/-- A value without references reads no leaf. -/
theorem leaves_of_references_eq_nil (found : scope.value site expression = .ok value) :
    references expression = [] → value.leaves = [] := by
  refine value_induction (motive := fun json value => references json = [] → value.leaves = [])
    ?scalar ?reference ?pseudo ?join ?select ?split ?array ?object found
  case scalar => exact fun _ _ _ _ => rfl
  case reference =>
    intro json value isReplaced _ _ free
    rw [references_of_isReference isReplaced] at free
    cases free
  case pseudo => exact fun _ _ => rfl
  case join =>
    intro separator parts results each free
    rw [references_single rfl] at free
    exact leavesOfItems_eq_nil each (by simpa [references, referencesOfItems] using free)
  case select =>
    intro index items result each free
    rw [references_single rfl] at free
    exact each (by simpa [references, referencesOfItems, Json.natural] using free)
  case split =>
    intro separator source result each free
    rw [references_single rfl] at free
    exact each (by simpa [references, referencesOfItems] using free)
  case array => exact fun items results each free => leavesOfItems_eq_nil each free
  case object =>
    intro members results plain each free
    have notReplaced : ¬isReference (.object members) = true := by simp [plain]
    rw [references, if_neg notReplaced] at free
    exact leavesOfMembers_eq_nil each free

/-- Whatever its leaves are resolved to, the value of an expression is written like the expression,
with every reference replaced by what it stands for and all else as it was. An expression without
references is written as it was and reads no leaf. -/
theorem expressions_are_rewritten_in_place (found : scope.value site expression = .ok value) :
    (∀ {ε : Type} (view : Leaf → Except ε Template.Value) (shown : Template.Value),
      value.resolve view = .ok shown →
        ∃ replacement, scope.Rewritten view replacement expression shown) ∧
    (references expression = [] →
      value.leaves = [] ∧ ∀ replacement, rewrite replacement expression = expression) :=
  ⟨fun _ shown resolved => ⟨_, keeps_value found shown resolved⟩,
    fun free => ⟨leaves_of_references_eq_nil found free,
      fun replacement => rewrite_of_references_eq_nil replacement expression free⟩⟩

/-- A stack with a resource. -/
def shelf : List Item :=
  [⟨"S", .stack ⟨none, .unspecified⟩⟩, ⟨"S/A", .resource "Bucket" none []⟩]

/-- When these are declared, attributes of the resource can be read. -/
theorem exists_shelved : ∃ scope : Scope,
    shelf.foldlM (declare ⟨FileSystem.empty, "."⟩) .empty = .ok scope ∧
      scope.attributeValue "S/U" (.string "S/A.Arn") = .ok (.getAtt 2 "Arn") := by
  have seen : (shelf.foldlM (declare ⟨FileSystem.empty, "."⟩) Scope.empty).toOption.map
      (fun scope => ((scope.find "S/U" "S/A").toOption, (scope.app.getAtt 2 "Arn").isOk)) =
      some (some 2, true) := by
    decide +kernel
  obtain ⟨scope, declared, seen⟩ := exists_of_map_toOption seen
  obtain ⟨isFound, offered⟩ := Prod.mk.inj seen
  obtain ⟨value, offered⟩ := exists_of_isOk offered
  have isAttribute : value = .getAtt 2 "Arn" := by
    obtain ⟨found, _, offered⟩ := bind_eq_ok.mp offered
    split at offered
    · split at offered <;> cases offered
      rfl
    · cases offered
  have parts : splitAtLast? '.' "S/A.Arn" = some ("S/A", "Arn") := by decide +kernel
  refine ⟨scope, declared, ?_⟩
  rw [attributeValue, attributeArgument, parts]
  refine bind_eq_ok.mpr ⟨("S/A", "Arn"), rfl, ?_⟩
  refine bind_eq_ok.mpr ⟨2, eq_ok_of_toOption isFound, ?_⟩
  exact mapError_eq_ok.mpr (isAttribute ▸ offered)

/-- A function over a reference, over a pseudo parameter and over an object that only looks like
references. -/
def medley : Json :=
  .object [("Fn::Join", .array [.string "-", .array [.object [("Fn::GetAtt", .string "S/A.Arn")],
    .object [("Ref", .string "AWS::Region")],
    .object [("Ref", .string "S/A"), ("StackId", .null)]]])]

/-- Every leaf is imported. -/
def importing (_ : Leaf) : Except ResolveError Template.Value := .ok (.importValue "E")

theorem value_medley {scope : Scope}
    (isAttribute : scope.attributeValue "S/U" (.string "S/A.Arn") = .ok (.getAtt 2 "Arn")) :
    scope.value "S/U" medley = .ok (.join "-" [.getAtt 2 "Arn", .pseudo .region,
      .object [("Ref", .literal (.string "S/A")), ("StackId", .literal .null)]]) := by
  have region : scope.referenceValue "S/U" (.string "AWS::Region") = .ok (.pseudo .region) := rfl
  have names : Intrinsic.ofName? "Fn::Join" = some .join ∧
      Intrinsic.ofName? "Fn::GetAtt" = some .getAtt ∧
      Intrinsic.ofName? "Ref" = some .reference := by decide
  simp [medley, Scope.value, Scope.joinValue, Scope.values, Scope.memberValues, names, isAttribute,
    region, assetArguments?, Fields.get?, assetMember, bind, Except.bind, pure, Except.pure]

theorem medley_is_rewritten :
    ∃ (scope : Scope) (value : Deferred) (replacement : Json → Json),
      shelf.foldlM (declare ⟨FileSystem.empty, "."⟩) .empty = .ok scope ∧
      scope.value "S/U" medley = .ok value ∧
      value.resolve importing = .ok (.join "-" [.importValue "E", .ref "AWS::Region",
        .object [("Ref", .literal (.string "S/A")), ("StackId", .literal .null)]]) ∧
      scope.Rewritten importing replacement medley (.join "-" [.importValue "E",
        .ref "AWS::Region",
        .object [("Ref", .literal (.string "S/A")), ("StackId", .literal .null)]]) := by
  obtain ⟨scope, declared, isAttribute⟩ := exists_shelved
  have found := value_medley isAttribute
  obtain ⟨replacement, rewritten⟩ :=
    (expressions_are_rewritten_in_place found).1 importing _ rfl
  exact ⟨scope, _, replacement, declared, found, rfl, rewritten⟩

end Scope

end Definition

end StackSynth
