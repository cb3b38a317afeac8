import SchemaClasses.Proofs.PascalCase
import SchemaClasses.Proofs.Schema.OneClassEach

set_option autoImplicit false

namespace SchemaClasses.Schema

open Naming Node

def ClassModel.keys (model : ClassModel) : List Text := model.properties.map PropertyModel.jsonName

/-- Different keys have different names, and none of these is the name of the class. -/
structure ClassModel.MembersApart (model : ClassModel) : Prop where
  properties : ∀ one ∈ model.properties, ∀ two ∈ model.properties,
    one.jsonName ≠ two.jsonName → one.name ≠ two.name
  enclosing : ∀ property ∈ model.properties, property.name ≠ model.name

structure KeysApart (keys : List Text) (className : Text) : Prop where
  compounds : ∀ one ∈ keys, ∀ two ∈ keys, one ≠ two → compound true one ≠ compound true two
  enclosing : ∀ key ∈ keys, identifier key ≠ className

instance (keys : List Text) (className : Text) : Decidable (KeysApart keys className) :=
  decidable_of_iff ((∀ one ∈ keys, ∀ two ∈ keys, one ≠ two →
      compound true one ≠ compound true two) ∧
      ∀ key ∈ keys, identifier key ≠ className)
    ⟨fun ⟨compounds, enclosing⟩ => ⟨compounds, enclosing⟩,
      fun ⟨compounds, enclosing⟩ => ⟨compounds, enclosing⟩⟩

theorem ClassModel.membersApart_iff {model : ClassModel}
    (named : ∀ property ∈ model.properties, property.name = pascalCase property.jsonName) :
    model.MembersApart ↔ KeysApart model.keys model.name := by
  constructor
  · rintro ⟨properties, enclosing⟩
    constructor
    · intro one first two second different same
      obtain ⟨property, listed, rfl⟩ := List.mem_map.mp first
      obtain ⟨other, also, rfl⟩ := List.mem_map.mp second
      refine properties property listed other also different ?_
      rw [named property listed, named other also]
      exact pascalCase_eq_iff.mpr same
    · intro key member
      obtain ⟨property, listed, rfl⟩ := List.mem_map.mp member
      rw [← pascalCase_eq, ← named property listed]
      exact enclosing property listed
  · rintro ⟨compounds, enclosing⟩
    have key {property : PropertyModel} (listed : property ∈ model.properties) :
        property.jsonName ∈ model.keys := List.mem_map_of_mem listed
    constructor
    · intro one first two second different same
      rw [named one first, named two second] at same
      exact compounds _ (key first) _ (key second) different (pascalCase_eq_iff.mp same)
    · intro property listed
      rw [named property listed, pascalCase_eq]
      exact enclosing _ (key listed)

theorem ClassModel.keys_ofNode (names : ClassNames) (root node : Node) :
    (ofNode names root node).keys = node.propertyFields.map Prod.fst := by
  rw [keys, ofNode, List.map_map]
  rfl

theorem ClassModel.named_ofNode {names : ClassNames} {root node : Node} {property : PropertyModel}
    (member : property ∈ (ofNode names root node).properties) :
    property.name = pascalCase property.jsonName := by
  obtain ⟨field, -, rfl⟩ := List.mem_map.mp member
  rfl

theorem members_apart_iff (document : Json.Value) (rootName : Text)
    (object : document.isObject = true) :
    let models := classes document rootName
    ∃ (nodes : List Node) (names : ClassNames),
      models = nodes.map (ClassModel.ofNode names (Node.root document)) ∧
      (∀ namespaceName, generate document namespaceName rootName =
        .ok (Text.joinWith '\n' (sourceLines namespaceName models))) ∧
      (∀ node, node ∈ nodes ↔ ClassNode (Node.root document) node) ∧
      (∀ node ∈ nodes, (ClassModel.ofNode names (Node.root document) node).keys =
        node.propertyFields.map Prod.fst) ∧
      ∀ model ∈ models, model.MembersApart ↔ KeysApart model.keys model.name := by
  intro models
  obtain ⟨nodes, names, -, -, agenda, progress⟩ := exists_run document rootName
  have built : models = nodes.map (ClassModel.ofNode names (Node.root document)) :=
    progress.models names (.refl names)
  refine ⟨nodes, names, built, ?_, mem_built_iff agenda progress, ?_, ?_⟩
  · intro namespaceName
    rw [generate, if_pos object]
  · exact fun node _ => ClassModel.keys_ofNode names (Node.root document) node
  · intro model member
    obtain ⟨node, -, rfl⟩ := List.mem_map.mp (built ▸ member)
    exact ClassModel.membersApart_iff fun _ listed => ClassModel.named_ofNode listed

def similarKeys : Json.Value :=
  .object [
    ("properties".toList, .object [
      ("unit".toList, .object [("properties".toList, .object [
        ("a_b".toList, .object []), ("ab".toList, .object []), ("ab_2".toList, .object [])])]),
      ("Units".toList, .object [("type".toList, .string "string".toList)])])]

theorem members_of_similarKeys_apart : similarKeys.isObject = true ∧
    (classes similarKeys "Root".toList).map ClassModel.name = ["Root".toList, "Unit".toList] ∧
    ∀ model ∈ classes similarKeys "Root".toList, model.MembersApart := by
  obtain ⟨nodes, names, -, -, -, -, apart⟩ := members_apart_iff similarKeys "Root".toList rfl
  have keys : ∀ model ∈ classes similarKeys "Root".toList, KeysApart model.keys model.name := by
    decide +kernel
  exact ⟨rfl, by decide +kernel, fun model member => (apart model member).mpr (keys model member)⟩

def clashingKeys : Json.Value :=
  .object [
    ("properties".toList, .object [
      ("a-b".toList, .object [("type".toList, .string "string".toList)]),
      ("a_b".toList, .object [("type".toList, .string "string".toList)]),
      ("root".toList, .object [("type".toList, .string "string".toList)])])]

theorem members_of_clashingKeys :
    let models := classes clashingKeys "Root".toList
    clashingKeys.isObject = true ∧
    (∀ node next, Inside (Node.root clashingKeys) node →
      ¬ Follows (Node.root clashingKeys) node next) ∧
    (∀ model ∈ models, ∀ key ∈ model.keys, key.any Char.isAlphanum = true) ∧
    models.map (fun model => (model.name, model.keys, model.properties.map PropertyModel.name)) =
      [("Root".toList, ["a-b".toList, "a_b".toList, "root".toList],
        ["AB".toList, "AB".toList, "Root".toList])] ∧
    ∀ model ∈ models,
      (¬ ∀ one ∈ model.properties, ∀ two ∈ model.properties,
        one.jsonName ≠ two.jsonName → one.name ≠ two.name) ∧
      ¬ ∀ property ∈ model.properties, property.name ≠ model.name := by
  intro models
  have plain : ∀ node ∈ Node.all [] clashingKeys, node.reference? = none ∧ node.kind ≠ .array := by
    decide
  refine ⟨rfl, fun node next inside => ?_, by decide +kernel, by decide +kernel, by decide +kernel⟩
  obtain ⟨noReference, noArray⟩ := plain node inside.mem_all
  exact not_follows_of_plain noReference noArray

end SchemaClasses.Schema
