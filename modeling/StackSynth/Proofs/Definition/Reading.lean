/-
This file proves that a definition is read back from what is written of it. Every construct is
written with the fields of its kind in their order, those that may be missing only where they have a
value, and each field is read as what it was written for. What is read is proper and has no null as
the default of a parameter, for null stands for a missing field; of such definitions nothing is
lost.
-/

import StackSynth.Proofs.Definition.Proper
import StackSynth.Proofs.Json.Outlining
import StackSynth.Proofs.Template.Sections

namespace StackSynth

open Outcome

namespace Definition

open Json (Fault Outline)

section Shapes

variable {α : Type} {shape : Json → Option α} {name : String} {fields : List (String × Json)}
  {field : Json} {value : α}

theorem required_of_get? (found : Fields.get? name fields = some field)
    (isShape : shape field = some value) : required shape name fields = some value := by
  rw [required, found, Option.bind_some, isShape]

theorem defaulted_of_get? {default : α} (found : Fields.get? name fields = some field)
    (isShape : shape field = some value) : defaulted default shape name fields = some value := by
  rw [defaulted, found]
  exact isShape

theorem optional_of_get? {given : Option α} (write : α → Json)
    (found : Fields.get? name fields = given.map write)
    (isShape : ∀ value, given = some value → write value ≠ .null ∧ shape (write value) = some value) :
    optional shape name fields = some given := by
  cases given with
  | none => rw [optional, found, Option.map_none]
  | some value =>
    obtain ⟨notNull, isShape⟩ := isShape value rfl
    rw [optional, found, Option.map_some]
    split
    · rename_i never
      cases never
    · rename_i isNull
      exact absurd (Option.some.inj isNull) notNull
    · rename_i same
      rw [← Option.some.inj same, isShape]
      rfl

end Shapes

theorem textsOf?_strings (texts : List String) : textsOf? (Json.strings texts) = some texts := by
  rw [Json.strings, textsOf?]
  induction texts with
  | nil => rfl
  | cons text rest inductionHypothesis =>
    rw [List.map_cons, List.mapM_cons, inductionHypothesis]
    rfl

theorem textMapOf?_mapValues (map : SortedMap String String) :
    textMapOf? (.object (map.mapValues .string).entries) = some map := by
  have entries : ∀ entries : List (String × String),
      (entries.map fun entry => (entry.1, Json.string entry.2)).mapM
        (fun member => (textOf? member.2).map (member.1, ·)) = some entries := by
    intro entries
    induction entries with
    | nil => rfl
    | cons entry rest inductionHypothesis =>
      rw [List.map_cons, List.mapM_cons, inductionHypothesis]
      rfl
  rw [textMapOf?, SortedMap.mapValues, entries]
  exact congrArg some (SortedMap.ofList_entries map)

theorem membersOf?_object {properties : List (String × Json)}
    (nodup : (Fields.names properties).Nodup)
    (canonical : ∀ property ∈ properties, property.2.IsCanonical) :
    membersOf? (.object properties) = some properties := by
  have same : properties.map (fun member => (member.1, member.2.canonical)) = properties :=
    (List.map_congr_left fun property member =>
      congrArg (property.1, ·) (canonical property member)).trans (List.map_id properties)
  rw [membersOf?, same, Fields.ofList_of_nodup nodup]

theorem environmentOf?_toJson (environment : Environment) :
    environmentOf? environment.toJson = some environment := by
  obtain ⟨account, region⟩ := environment
  cases account <;> cases region <;> rfl

/-! ### Constructs -/

/-- The fields of a construct as they are written. -/
def Item.fields (item : Item) : List (String × Json) :=
  ("path", .string item.path) :: item.content.members

/-- A parameter has no null as its default. -/
def Content.LacksNull : Content → Prop
  | .parameter declaration => declaration.default ≠ some .null
  | _ => True

/-- The fields that are written of a construct say what it is. -/
theorem contentOf?_fields {item : Item} (proper : item.content.Proper)
    (lacksNull : item.content.LacksNull) :
    contentOf? item.fields item.content.kind = some item.content := by
  have text : ∀ {given : Option String}, ∀ value, given = some value →
      Json.string value ≠ .null ∧ textOf? (.string value) = some value :=
    fun _ _ => ⟨Json.noConfusion, rfl⟩
  obtain ⟨path, content⟩ := item
  generalize written : Item.fields ⟨path, content⟩ = fields
  have found : ∀ name, Fields.get? name fields =
      Fields.get? name (("path", .string path) :: content.members) :=
    fun _ => by rw [← written, Item.fields]
  cases content with
  | group => rfl
  | stack options =>
    have isName : optional textOf? "stackName" fields = some options.name :=
      optional_of_get? .string (by simp [found, Content.members, Fields.get?]) text
    have isPlace : defaulted .unspecified environmentOf? "env" fields =
        some options.environment :=
      defaulted_of_get? (by simp [found, Content.members, Fields.get?])
        (environmentOf?_toJson options.environment)
    rw [Content.kind, contentOf?, isName, isPlace]
    rfl
  | nestedStack => rfl
  | resource type attributes properties =>
    have isType : required textOf? "type" fields = some type :=
      required_of_get? (by simp [found, Content.members, Fields.get?]; rfl) rfl
    have isList : optional textsOf? "attributes" fields = some attributes :=
      optional_of_get? Json.strings (by simp [found, Content.members, Fields.get?])
        fun value _ => ⟨Json.noConfusion, textsOf?_strings value⟩
    have isMap : defaulted [] membersOf? "properties" fields = some properties :=
      defaulted_of_get? (by simp [found, Content.members, Fields.get?])
        (membersOf?_object proper.1 proper.2)
    rw [Content.kind, contentOf?, isType, isList, isMap]
    rfl
  | parameter declaration =>
    have isType : defaulted defaultParameterType textOf? "type" fields = some declaration.type :=
      defaulted_of_get? (by simp [found, Content.members, Fields.get?]; rfl) rfl
    have isDefault : optional canonicalOf? "default" fields = some declaration.default :=
      optional_of_get? id (by simp [found, Content.members, Fields.get?]) fun value given =>
        ⟨fun isNull => lacksNull (given.trans (congrArg some isNull)),
          congrArg some (proper value given)⟩
    have isText : optional textOf? "description" fields = some declaration.description :=
      optional_of_get? .string (by simp [found, Content.members, Fields.get?]) text
    rw [Content.kind, contentOf?, isType, isDefault, isText]
    rfl
  | output value description exported =>
    have isValue : required canonicalOf? "value" fields = some value :=
      required_of_get? (by simp [found, Content.members, Fields.get?]) (congrArg some proper)
    have isText : optional textOf? "description" fields = some description :=
      optional_of_get? .string (by simp [found, Content.members, Fields.get?]) text
    have isName : optional textOf? "exportName" fields = some exported :=
      optional_of_get? .string (by simp [found, Content.members, Fields.get?]) text
    rw [Content.kind, contentOf?, isValue, isText, isName]
    rfl
  | fileAsset source exclude =>
    have isSource : required textOf? "source" fields = some source :=
      required_of_get? (by simp [found, Content.members, Fields.get?]; rfl) rfl
    have isList : defaulted [] textsOf? "exclude" fields = some exclude :=
      defaulted_of_get? (by simp [found, Content.members, Fields.get?]) (textsOf?_strings exclude)
    rw [Content.kind, contentOf?, isSource, isList]
    rfl
  | imageAsset image =>
    have isDirectory : required textOf? "directory" fields = some image.directory :=
      required_of_get? (by simp [found, Content.members, Fields.get?]; rfl) rfl
    have isMap : defaulted ∅ textMapOf? "buildArgs" fields = some image.buildArguments :=
      defaulted_of_get? (by simp [found, Content.members, Fields.get?])
        (textMapOf?_mapValues image.buildArguments)
    have isTarget : optional textOf? "target" fields = some image.target :=
      optional_of_get? .string (by simp [found, Content.members, Fields.get?]) text
    have isFile : optional textOf? "file" fields = some image.file :=
      optional_of_get? .string (by simp [found, Content.members, Fields.get?]) text
    have isName : optional textOf? "repositoryName" fields = some image.repositoryName :=
      optional_of_get? .string (by simp [found, Content.members, Fields.get?]) text
    rw [Content.kind, contentOf?, isDirectory, isMap, isTarget, isFile, isName]
    rfl

/-- A construct is written with fields of its kind in their order. -/
theorem names_fields_sublist (item : Item) :
    (Fields.names item.fields).Sublist item.content.kind.fields := by
  have optional : ∀ {α : Type} (name : String) (write : α → Json) (value : Option α),
      (Fields.names (Json.optionalMember name write value)).Sublist [name] :=
    fun _ _ _ => Fields.names_optionalMember_sublist
  have appended := @Fields.names_append_sublist Json
  obtain ⟨path, content⟩ := item
  cases content with
  | group => exact List.Sublist.refl _
  | stack options => exact .cons_cons "path" (appended (optional _ _ _) (List.Sublist.refl _))
  | nestedStack => exact List.Sublist.refl _
  | resource type attributes properties =>
    exact .cons_cons "path" (.cons_cons "type"
      (appended (optional _ _ _) (List.Sublist.refl _)))
  | parameter declaration =>
    exact .cons_cons "path" (.cons_cons "type" (appended (optional _ _ _) (optional _ _ _)))
  | output value description exported =>
    exact .cons_cons "path" (.cons_cons "value" (appended (optional _ _ _) (optional _ _ _)))
  | fileAsset source exclude => exact List.Sublist.refl _
  | imageAsset image =>
    exact .cons_cons "path" (appended
      (appended (appended (List.Sublist.refl _) (optional _ _ _)) (optional _ _ _))
      (optional _ _ _))

/-- So none of them is unknown or comes twice. -/
theorem fieldsAmong?_fields (item : Item) :
    fieldsAmong? item.content.kind.fields item.fields = some item.fields := by
  have sublist := names_fields_sublist item
  have known : item.fields.filter
      (fun member => item.content.kind.fields.contains member.1) = item.fields := by
    refine List.filter_eq_self.mpr fun member listed => ?_
    exact List.contains_iff_mem.mpr (sublist.subset (List.mem_map_of_mem listed))
  have distinct : item.content.kind.fields.Nodup := by
    cases item.content.kind <;> decide
  rw [fieldsAmong?, known]
  exact if_pos (distinct.sublist sublist)

/-- The fields that are written of a construct, read as those of its kind, give it back. -/
theorem itemOf?_fields {item : Item} (proper : item.content.Proper)
    (lacksNull : item.content.LacksNull) :
    itemOf? item.content.kind item.fields = some item := by
  have isPath : required textOf? "path" item.fields = some item.path :=
    required_of_get? rfl rfl
  rw [itemOf?, isPath, contentOf?_fields proper lacksNull]
  rfl

/-- The members of a construct whose kind is known are read like those of any object. -/
theorem readMembers_of_read {depth : Nat} {kind : Kind} {members : List (String × Json)} :
    kindMember ∉ Fields.names members → ∀ {values : List (String × Json)},
      Outline.readMembers depth (Json.outlineMembers members) = .ok values →
        readMembers depth (some kind) (Json.outlineMembers members) = .ok (some kind, values) := by
  induction members with
  | nil =>
    intro _ values done
    cases done
    rfl
  | cons member rest inductionHypothesis =>
    intro noKind values done
    obtain ⟨name, value⟩ := member
    obtain ⟨apart, noKind⟩ := not_or.mp (mt List.mem_cons.mpr noKind)
    obtain ⟨text, isText, done⟩ := bind_eq_ok.mp done
    obtain ⟨first, doneFirst, done⟩ := bind_eq_ok.mp done
    obtain ⟨others, doneRest, same⟩ := bind_eq_ok.mp done
    cases isText
    cases same
    rw [Json.outlineMembers, readMembers]
    refine bind_eq_ok.mpr ⟨name, rfl, ?_⟩
    rw [if_neg (Ne.symm apart)]
    exact bind_eq_ok.mpr ⟨first, doneFirst,
      bind_eq_ok.mpr ⟨(some kind, others), inductionHypothesis noKind doneRest, rfl⟩⟩

theorem readKind_name (kind : Kind) :
    readKind (Json.outline (.string kind.name)) = .ok kind := by
  cases kind <;> rfl

/-- A construct is read back from what is written of it. -/
theorem readItem_toJson {depth : Nat} {item : Item} (proper : item.content.Proper)
    (lacksNull : item.content.LacksNull)
    (readable : (Json.outline item.toJson).read depth = .ok item.toJson) :
    readItem depth (Json.outline item.toJson) = .ok item := by
  obtain ⟨_, entered, done⟩ := bind_eq_ok.mp readable
  obtain ⟨values, doneMembers, done⟩ := bind_eq_ok.mp done
  cases done
  obtain ⟨_, _, done⟩ := bind_eq_ok.mp doneMembers
  obtain ⟨_, _, done⟩ := bind_eq_ok.mp done
  obtain ⟨others, doneFields, same⟩ := bind_eq_ok.mp done
  cases same
  have noKind : kindMember ∉ Fields.names item.fields := by
    refine mt (fun member => (names_fields_sublist item).subset member) ?_
    cases item.content.kind <;> decide
  refine bind_eq_ok.mpr ⟨(), entered, bind_eq_ok.mpr
    ⟨(some item.content.kind, item.fields), ?_, bind_eq_ok.mpr ⟨(), rfl, ?_⟩⟩⟩
  · refine bind_eq_ok.mpr ⟨kindMember, rfl, ?_⟩
    rw [if_pos rfl]
    refine bind_eq_ok.mpr ⟨some item.content.kind, ?_, readMembers_of_read noKind doneFields⟩
    rw [readKind_name]
    rfl
  · refine bind_eq_ok.mpr ⟨item.content.kind, rfl, ?_⟩
    rw [fieldsAmong?_fields, Option.bind_some, itemOf?_fields proper lacksNull]
    rfl

/-! ### Definitions -/

/-- No parameter of the definition has a null as its default. -/
def LacksNull (definition : Definition) : Prop :=
  ∀ item ∈ definition.constructs, item.content.LacksNull

/-- A definition is read back from what is written of it. -/
theorem read_toJson {definition : Definition} (proper : definition.Proper)
    (lacksNull : definition.LacksNull)
    (readable : (Json.outline definition.toJson).read 0 = .ok definition.toJson) :
    read (Json.outline definition.toJson) = .ok definition := by
  obtain ⟨_, entered, done⟩ := bind_eq_ok.mp readable
  obtain ⟨_, doneMembers, done⟩ := bind_eq_ok.mp done
  cases done
  obtain ⟨_, _, done⟩ := bind_eq_ok.mp doneMembers
  obtain ⟨_, doneList, done⟩ := bind_eq_ok.mp done
  obtain ⟨_, doneRest, same⟩ := bind_eq_ok.mp done
  cases doneRest
  cases same
  obtain ⟨_, enteredList, done⟩ := bind_eq_ok.mp doneList
  obtain ⟨_, doneItems, done⟩ := bind_eq_ok.mp done
  cases done
  have readItems : ∀ item ∈ definition.constructs,
      readItem 2 (Json.outline item.toJson) = .ok item := fun item listed =>
    readItem_toJson (proper item listed) (lacksNull item listed)
      (Json.read_item_of_readItems doneItems _ (List.mem_map_of_mem listed))
  refine bind_eq_ok.mpr ⟨_, bind_eq_ok.mpr ⟨(), entered, rfl⟩, bind_eq_ok.mpr
    ⟨some definition.constructs, ?_, rfl⟩⟩
  rw [Json.fold_outline, List.foldlM_cons]
  refine bind_eq_ok.mpr ⟨some definition.constructs, ?_, rfl⟩
  show Outline.once none _ = _
  rw [Json.list_outline enteredList Item.toJson readItems]
  rfl

/-! ### What is read -/

/-- A text that holds what is written of a definition holds the definition. -/
theorem ofText_of_parse {definition : Definition} {text : String} (proper : definition.Proper)
    (lacksNull : definition.LacksNull) (holds : Json.parse text = .ok definition.toJson) :
    ofText text = .ok definition := by
  obtain ⟨document, readable⟩ := Json.ofText_of_parse holds
  rw [ofText, document]
  exact bind_eq_ok.mpr ⟨definition, read_toJson proper lacksNull readable, rfl⟩

end Definition

end StackSynth
