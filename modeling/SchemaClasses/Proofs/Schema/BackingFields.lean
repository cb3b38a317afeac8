import SchemaClasses.Proofs.PascalCase
import SchemaClasses.Proofs.Schema.References
import SchemaClasses.Proofs.Schema.SourceLines
import SchemaClasses.Proofs.Source.Expansion

set_option autoImplicit false

namespace SchemaClasses

namespace ExpandedProperty

inductive Accessor where
  | get
  | set
deriving DecidableEq

inductive Meaning where
  | parameter
  | field
  | property
deriving DecidableEq

def parameterName : Text := "value".toList

def members (property : ExpandedProperty) : List (Text × Meaning) :=
  [(property.fieldName, .field), (property.publicName, .property)]

/-- What a name may stand for in an accessor; only with a single meaning it can be used. -/
def meanings (property : ExpandedProperty) (accessor : Accessor) (name : Text) : List Meaning :=
  if accessor = .set ∧ name = parameterName then [.parameter]
  else (property.members.filter fun member => member.1 = name).map Prod.snd

/-- The getter reads the backing field, and the setter stores into it. -/
def UsesField (property : ExpandedProperty) : Prop :=
  ∀ accessor, property.meanings accessor property.fieldName = [.field]

theorem usesField_iff (property : ExpandedProperty) : property.UsesField ↔
    property.fieldName ≠ property.publicName ∧ property.fieldName ≠ parameterName := by
  constructor
  · intro uses
    have get := uses .get
    have set := uses .set
    constructor
    · intro same
      simp [meanings, members, same] at get
    · intro same
      simp [meanings, same] at set
  · rintro ⟨noProperty, noParameter⟩ accessor
    simp [meanings, members, noParameter, Ne.symm noProperty]

end ExpandedProperty

namespace Schema

open Node Shorthand Text

theorem declaration_mem_allLines {properties : List PropertyModel} {property : PropertyModel}
    (member : property ∈ properties) :
    property.declaration ∈ PropertyModel.allLines properties := by
  fun_induction PropertyModel.allLines properties with
  | case1 => contradiction
  | case2 only =>
    obtain rfl := List.mem_singleton.mp member
    simp [PropertyModel.lines]
  | case3 first next rest ih =>
    rcases List.mem_cons.mp member with rfl | later
    · simp [PropertyModel.lines]
    · exact List.mem_append_right _ (List.mem_cons_of_mem _ (ih later))

theorem declaration_mem_sourceLines {models : List ClassModel} {model : ClassModel}
    {property : PropertyModel} (listed : model ∈ models) (member : property ∈ model.properties)
    (namespaceName : Text) : property.declaration ∈ sourceLines namespaceName models := by
  have inside : property.declaration ∈ model.lines := by
    simp [ClassModel.lines, declaration_mem_allLines member]
  exact List.mem_append_left _ (List.mem_append_right _ (List.mem_flatMap_of_mem listed inside))

theorem name_of_parse?_declaration {property : PropertyModel} {shorthand : Shorthand}
    (plain : property.Plain) (parsed : parse? property.declaration = some shorthand) :
    shorthand.name = property.name := by
  have pieces := LineKind.splitOn_declared (TypeName.visible_of_mem_render plain.type)
    (fun c member => visible_of_isPlain (PropertyModel.plain_name plain c member))
    property.afterAccessors
  obtain ⟨others, same⟩ := exists_pieces parsed
  rw [property.trim_declaration, pieces] at same
  exact (List.cons.inj (List.cons.inj (List.cons.inj same).2).2).1.symm

theorem accessors_use_field_iff (document : Json.Value) (path : Path) (namespaceName : Text)
    (object : document.isObject = true) :
    let models := classes document (rootName document path)
    generate document namespaceName (rootName document path) =
      .ok (joinWith '\n' (sourceLines namespaceName models)) ∧
    ∀ model ∈ models, ∀ property ∈ model.properties,
      property.declaration ∈ sourceLines namespaceName models ∧
      ∀ shorthand, property.name ≠ [] → parse? property.declaration = some shorthand →
        let expanded := shorthand.expand
        (∀ layout, expandLine? layout property.declaration = some (expanded.render layout)) ∧
        expanded.publicName = property.name ∧
        (expanded.fieldName = expanded.publicName ↔ Naming.LeadsWithDigit property.jsonName) ∧
        (expanded.fieldName = "value".toList ↔ property.name = "Value".toList) ∧
        (expanded.UsesField ↔
          ¬ Naming.LeadsWithDigit property.jsonName ∧ property.name ≠ "Value".toList) := by
  intro models
  refine ⟨if_pos object, fun model listed property member =>
    ⟨declaration_mem_sourceLines listed member namespaceName, ?_⟩⟩
  intro shorthand named parsed expanded
  have plain : property.Plain :=
    (plain_classes (plain_rootName document path) document model listed).properties property member
  have pascal : shorthand.name = Naming.pascalCase property.jsonName :=
    (name_of_parse?_declaration plain parsed).trans plain.name
  have publicName : expanded.publicName = property.name := by
    rw [plain.name]
    exact (congrArg Naming.upperFirst pascal).trans (Naming.upperFirst_pascalCase _)
  have fieldName : expanded.fieldName = Naming.lowerFirst (Naming.pascalCase property.jsonName) :=
    congrArg Naming.lowerFirst pascal
  have clash : expanded.fieldName = expanded.publicName ↔
      Naming.LeadsWithDigit property.jsonName := by
    rw [publicName, fieldName, plain.name]
    exact Naming.lowerFirst_pascalCase_eq_iff (plain.name ▸ named)
  have hidden : expanded.fieldName = "value".toList ↔ property.name = "Value".toList := by
    rw [fieldName, plain.name]
    exact Naming.lowerFirst_pascalCase_eq_value_iff _
  refine ⟨fun layout => ?_, publicName, clash, hidden, ?_⟩
  · rw [expandLine?, parsed]
    rfl
  · rw [ExpandedProperty.usesField_iff]
    exact and_congr (not_congr clash) (not_congr hidden)

def sceneDefaults : Json.Value :=
  .object [
    ("properties".toList, .object [
      ("display_name".toList, .object [
        ("type".toList, .string "string".toList),
        ("default".toList, .string "main".toList)]),
      ("value".toList, .object [
        ("type".toList, .string "integer".toList),
        ("default".toList, .number (.integer 1))]),
      ("3d".toList, .object [
        ("type".toList, .string "boolean".toList),
        ("default".toList, .bool true)])])]

def scenePath : Path := ⟨"scene.json".toList⟩

def displayName : PropertyModel where
  jsonName := "display_name".toList
  name := "DisplayName".toList
  type := .scalar .string
  initializer? := some (.literal (quote "main".toList))
  required := false
  description? := none

theorem accessors_of_displayName_use_field :
    sceneDefaults.isObject = true ∧
    ∃ model ∈ classes sceneDefaults (rootName sceneDefaults scenePath),
      displayName ∈ model.properties ∧ displayName.name ≠ [] ∧
      ∃ shorthand, parse? displayName.declaration = some shorthand ∧
        shorthand.expand.UsesField := by
  obtain ⟨model, listed, member⟩ :
      ∃ model ∈ classes sceneDefaults (rootName sceneDefaults scenePath),
        displayName ∈ model.properties := by
    decide +kernel
  have named : displayName.name ≠ [] := by decide
  obtain ⟨shorthand, parsed⟩ : ∃ shorthand, parse? displayName.declaration = some shorthand :=
    Option.isSome_iff_exists.mp (by decide +kernel)
  have facts := (accessors_use_field_iff sceneDefaults scenePath "Gen".toList rfl).2
    model listed displayName member
  exact ⟨rfl, model, listed, member, named, shorthand, parsed,
    (facts.2 shorthand named parsed).2.2.2.2.mpr ⟨by decide +kernel, by decide⟩⟩

theorem accessors_without_field :
    let models := classes sceneDefaults (rootName sceneDefaults scenePath)
    sceneDefaults.isObject = true ∧
    (∀ node next, Inside (Node.root sceneDefaults) node →
      ¬ Follows (Node.root sceneDefaults) node next) ∧
    (∃ model ∈ models, ∃ property ∈ model.properties, property.name = "Value".toList ∧
      ∃ shorthand ∈ parse? property.declaration,
        shorthand.expand.fieldName = "value".toList ∧
        shorthand.expand.setter = "set \x7b value = value; \x7d".toList ∧
        shorthand.expand.meanings .set shorthand.expand.fieldName = [.parameter]) ∧
    ∃ model ∈ models, ∃ property ∈ model.properties, property.name = "_3d".toList ∧
      ∃ shorthand ∈ parse? property.declaration,
        shorthand.expand.fieldName = "_3d".toList ∧ shorthand.expand.publicName = "_3d".toList ∧
        shorthand.expand.getter = "get \x7b return _3d; \x7d".toList ∧
        shorthand.expand.meanings .get shorthand.expand.fieldName = [.field, .property] := by
  intro models
  have plain : ∀ node ∈ Node.all [] sceneDefaults, node.reference? = none ∧ node.kind ≠ .array := by
    decide
  refine ⟨rfl, fun node next inside => ?_, ?_, ?_⟩
  · obtain ⟨noReference, noArray⟩ := plain node inside.mem_all
    exact not_follows_of_plain noReference noArray
  · decide +kernel
  · decide +kernel

end Schema

end SchemaClasses
