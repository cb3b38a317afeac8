import Mathlib.Data.Set.Card
import SchemaClasses.Proofs.Schema.Traversal

set_option autoImplicit false

namespace SchemaClasses.Schema

open Node

inductive SchemaNode (root : Node) : Node → Prop where
  | root : SchemaNode root root
  | definition {group node : Node} {key : Text} (isSection : IsSection root group)
      (member : (key, node) ∈ group.fields) : SchemaNode root node
  | property {owner node : Node} {key : Text} (outer : SchemaNode root owner)
      (declared : (key, node) ∈ owner.propertyFields) : SchemaNode root node
  | items {array items : Node} (outer : SchemaNode root array) (array : HasItems array items) :
      SchemaNode root items
  | target {node target : Node} (outer : SchemaNode root node)
      (refers : RefersTo root node target) : SchemaNode root target

namespace SchemaNode

variable {root node last : Node}

theorem inside (schema : SchemaNode root node) : Inside root node := by
  induction schema with
  | root => exact .self
  | definition isSection member => exact isSection.inside.field member
  | property _ declared ih => exact inside_of_mem_propertyFields ih declared
  | items _ array ih => exact ih.of_field? array.found
  | target _ refers => exact refers.inside

theorem of_chain (schema : SchemaNode root node)
    (chain : Relation.ReflTransGen (Follows root) node last) : SchemaNode root last := by
  induction chain with
  | refl => exact schema
  | tail _ step ih =>
    rcases follows_iff.mp step with inlines | array
    · exact .target ih inlines.refers
    · exact .items ih array

theorem encard_le_size (document : Json.Value) :
    {node | SchemaNode (Node.root document) node}.encard ≤ document.size := by
  classical
  have covered : {node | SchemaNode (Node.root document) node} ⊆ ↑(all [] document).toFinset :=
    fun node schema => List.mem_toFinset.mpr (inside schema).mem_all
  have bound := (List.toFinset_card_le (all [] document)).trans (length_all_le [] document)
  calc {node | SchemaNode (Node.root document) node}.encard
    _ ≤ (↑(all [] document).toFinset : Set Node).encard := Set.encard_le_encard covered
    _ = (all [] document).toFinset.card := Set.encard_coe_eq_coe_finsetCard _
    _ ≤ document.size := by exact_mod_cast bound

end SchemaNode

theorem ClassNode.schemaNode {root node : Node} (classNode : ClassNode root node) :
    SchemaNode root node := by
  induction classNode with
  | root => exact .root
  | definition listed =>
    obtain ⟨-, group, key, isSection, member⟩ := mem_definitionNodes listed
    exact .definition isSection member
  | property _ declared mentions ih =>
    obtain ⟨last, chain, ⟨-, rfl⟩ | ⟨refers, -⟩⟩ := mentions.exists_last
    · exact (SchemaNode.property ih declared).of_chain chain
    · exact .target ((SchemaNode.property ih declared).of_chain chain) refers

theorem schemaNode_of_namedNode? {root owner node : Node} {field : Text × Node}
    (outer : SchemaNode root owner) (declared : field ∈ owner.propertyFields)
    (stands : (PropertyModel.shapeOf root field).namedNode? = some node) : SchemaNode root node := by
  obtain ⟨last, chain, ending⟩ := Shape.exists_ending root field.2 (root.value.size + 1)
    (Naming.pascalCase field.1)
  have schema := (SchemaNode.property outer declared).of_chain chain
  rw [PropertyModel.shapeOf, Shape.ofProperty, ← Shape.namedNode?_leaf] at stands
  generalize (Shape.of root (root.value.size + 1) (Naming.pascalCase field.1) field.2).leaf = shape
    at ending stands
  cases ending with
  | scalar | unresolved => contradiction
  | inPlace =>
    obtain rfl := Option.some.inj stands
    exact schema
  | reference _ refers =>
    obtain rfl := Option.some.inj stands
    exact .target schema refers

def ClassNames.OfSchemas (root : Node) (names : ClassNames) : Prop :=
  ∀ place ∈ names.positions, ∃ node, SchemaNode root node ∧ node.position = place

namespace ClassNames.OfSchemas

variable {root owner : Node} {names : ClassNames} {draft : Draft}

theorem iff_each : names.OfSchemas root ↔
    names.Each fun _ place => ∃ node, SchemaNode root node ∧ node.position = place :=
  List.forall_mem_map

theorem collect {fields : List (Text × Node)} (named : draft.names.OfSchemas root)
    (outer : SchemaNode root owner) (declared : fields ⊆ owner.propertyFields) :
    (PropertyModel.collect root owner draft fields).2.names.OfSchemas root := by
  refine iff_each.mpr ((PropertyModel.grants_collect root owner draft fields).each (iff_each.mp named) ?_)
  rintro base node ⟨field, member, asked⟩ names
  exact ⟨node, schemaNode_of_namedNode? outer (declared member) (Shape.namedNode?_of_request? asked),
    rfl⟩

theorem start (root : Node) (rootName : Text) : (Draft.start root rootName).names.OfSchemas root := by
  have entry (group : Text) (isSection : group = "definitions".toList ∨ group = "$defs".toList) :
      ∀ field ∈ Draft.sectionFields root group, SchemaNode root field.2 := by
    intro field member
    obtain ⟨outer, found, inner⟩ := mem_sectionFields member
    exact .definition ⟨group, isSection, found⟩ inner
  refine iff_each.mpr ((Draft.grants_start root rootName).each (ClassNames.each_empty _) ?_)
  rintro base node (⟨-, rfl⟩ | ⟨field, member, -, -, rfl⟩) names
  · exact ⟨node, .root, rfl⟩
  · have schema := (List.mem_append.mp member).elim (entry _ (.inl rfl) field)
      (entry _ (.inr rfl) field)
    exact ⟨field.2, schema, rfl⟩

theorem length_le (named : names.OfSchemas root) (distinct : names.Distinct) :
    names.reserved.length ≤ {node | SchemaNode root node}.encard := by
  have covered : (↑names.positions.toFinset : Set (List Nat)) ⊆
      position '' {node | SchemaNode root node} := by
    intro place member
    exact named place (List.mem_toFinset.mp member)
  have count : names.positions.toFinset.card = names.reserved.length := by
    rw [List.toFinset_card_of_nodup distinct.nodesApart, positions, List.length_map]
  calc (names.reserved.length : ℕ∞)
    _ = (↑names.positions.toFinset : Set (List Nat)).encard := by
      rw [Set.encard_coe_eq_coe_finsetCard, count]
    _ ≤ (position '' {node | SchemaNode root node}).encard := Set.encard_le_encard covered
    _ ≤ {node | SchemaNode root node}.encard := Set.encard_image_le _ _

end ClassNames.OfSchemas

end SchemaClasses.Schema
