import Mathlib.Data.List.Nodup
import SchemaClasses.Proofs.Schema.Shapes
import SchemaClasses.Schema.Classes

set_option autoImplicit false

namespace SchemaClasses.Schema

open Node

def definitionNodes (root : Node) : List Node :=
  ((Draft.sectionFields root "definitions".toList ++ Draft.sectionFields root "$defs".toList).filter
    fun field => field.2.isObjectSchema).map Prod.snd

def startNodes (root : Node) : List Node := root :: definitionNodes root

inductive ClassNode (root : Node) : Node → Prop where
  | root : ClassNode root root
  | definition {node : Node} (listed : node ∈ definitionNodes root) : ClassNode root node
  | property {owner node target : Node} {key : Text} (outer : ClassNode root owner)
      (declared : (key, node) ∈ owner.propertyFields) (mentions : Mentions root node target) :
      ClassNode root target

theorem ClassNode.of_start {root node : Node} (start : node ∈ startNodes root) :
    ClassNode root node := by
  rcases List.mem_cons.mp start with rfl | listed
  · exact .root
  · exact .definition listed

def IsSection (root node : Node) : Prop :=
  ∃ key, (key = "definitions".toList ∨ key = "$defs".toList) ∧ root.field? key = some node

theorem mem_sectionFields {root node : Node} {key name : Text}
    (member : (name, node) ∈ Draft.sectionFields root key) :
    ∃ outer, root.field? key = some outer ∧ (name, node) ∈ outer.fields := by
  unfold Draft.sectionFields at member
  split at member
  · rename_i outer found
    exact ⟨outer, found, member⟩
  · contradiction

theorem mem_definitionNodes {root node : Node} (member : node ∈ definitionNodes root) :
    node.isObjectSchema = true ∧
      ∃ outer name, IsSection root outer ∧ (name, node) ∈ outer.fields := by
  obtain ⟨⟨name, other⟩, listed, rfl⟩ := List.mem_map.mp member
  obtain ⟨either, schema⟩ := List.mem_filter.mp listed
  refine ⟨schema, ?_⟩
  rcases List.mem_append.mp either with first | second
  · obtain ⟨outer, found, field⟩ := mem_sectionFields first
    exact ⟨outer, name, ⟨_, .inl rfl, found⟩, field⟩
  · obtain ⟨outer, found, field⟩ := mem_sectionFields second
    exact ⟨outer, name, ⟨_, .inr rfl, found⟩, field⟩

theorem mem_propertyFields {owner node : Node} {key : Text}
    (declared : (key, node) ∈ owner.propertyFields) :
    ∃ properties, owner.field? "properties".toList = some properties ∧
      (key, node) ∈ properties.fields := by
  unfold propertyFields properties? at declared
  split at declared
  · rename_i properties found
    split at found
    · rename_i outer place
      split at found
      · obtain rfl := Option.some.inj found
        exact ⟨outer, place, declared⟩
      · contradiction
    · contradiction
  · contradiction

theorem mem_propertyFields_of {owner properties node : Node} {key : Text}
    (found : owner.field? "properties".toList = some properties)
    (member : (key, node) ∈ properties.fields) : (key, node) ∈ owner.propertyFields := by
  have object := isObject_of_mem_fields member
  simp only [propertyFields, properties?, found, object, if_true]
  exact member

theorem inside_of_mem_propertyFields {root owner node : Node} {key : Text}
    (inside : Inside root owner) (declared : (key, node) ∈ owner.propertyFields) :
    Inside root node := by
  obtain ⟨properties, found, member⟩ := mem_propertyFields declared
  exact (inside.of_field? found).field member

theorem IsSection.inside {root node : Node} (isSection : IsSection root node) :
    Inside root node := by
  obtain ⟨key, -, found⟩ := isSection
  exact Inside.self.of_field? found

theorem IsSection.length_of_field {document : Json.Value} {outer node : Node} {name : Text}
    (isSection : IsSection (Node.root document) outer) (member : (name, node) ∈ outer.fields) :
    node.position.length = 2 := by
  obtain ⟨group, -, found⟩ := isSection
  obtain ⟨index, -, below⟩ := mem_fields member
  obtain ⟨other, -, above⟩ := mem_fields (mem_fields_of_field? found)
  rw [below, above]
  rfl

theorem ClassNode.inside {root node : Node} (classNode : ClassNode root node) :
    Inside root node := by
  induction classNode with
  | root => exact .self
  | definition listed =>
    obtain ⟨-, outer, name, isSection, member⟩ := mem_definitionNodes listed
    exact isSection.inside.field member
  | property _ declared mentions ih =>
    exact mentions.inside (inside_of_mem_propertyFields ih declared)

structure Apart (root node : Node) : Prop where
  noSection : ∀ outer, IsSection root outer → node.position ≠ outer.position
  noStart : node.hasProperties = true → node ∉ startNodes root

variable {document : Json.Value} {node child outer : Node} {key : Text}

theorem IsSection.position_ne_of_field
    (isSection : IsSection (Node.root document) outer) (member : (key, child) ∈ node.fields)
    (inside : Inside (Node.root document) node) (notDefinitions : key ≠ "definitions".toList)
    (notDefs : key ≠ "$defs".toList) : child.position ≠ outer.position := by
  intro same
  obtain ⟨sectionKey, either, found⟩ := isSection
  have place := mem_fields_of_field? found
  obtain ⟨index, -, here⟩ := mem_fields member
  obtain ⟨other, -, there⟩ := mem_fields place
  -- Both stand right below the root, so they are fields of one node and have one key.
  have above : node.position = (Node.root document).position :=
    (List.cons.inj (here.symm.trans (same.trans there))).2
  obtain rfl := inside.eq_of_position .self above
  obtain rfl := key_eq_of_position member place same
  rcases either with rfl | rfl <;> contradiction

theorem IsSection.position_ne_of_length (isSection : IsSection (Node.root document) outer)
    (deep : 2 ≤ node.position.length) : node.position ≠ outer.position := by
  intro same
  obtain ⟨sectionKey, -, found⟩ := isSection
  obtain ⟨index, -, place⟩ := mem_fields (mem_fields_of_field? found)
  rw [same, place] at deep
  simp [Node.root] at deep

theorem notMem_startNodes (member : (key, child) ∈ node.fields)
    (noSection : ∀ outer, IsSection (Node.root document) outer →
      node.position ≠ outer.position) : child ∉ startNodes (Node.root document) := by
  intro listed
  obtain ⟨index, -, place⟩ := mem_fields member
  rcases List.mem_cons.mp listed with rfl | definition
  · contradiction
  · obtain ⟨-, outer, name, isSection, field⟩ := mem_definitionNodes definition
    obtain ⟨other, -, there⟩ := mem_fields field
    exact noSection outer isSection (List.cons.inj (place.symm.trans there)).2

theorem apart_of_mem_propertyFields (inside : Inside (Node.root document) node)
    (declared : (key, child) ∈ node.propertyFields) : Apart (Node.root document) child := by
  obtain ⟨properties, found, member⟩ := mem_propertyFields declared
  have outer := mem_fields_of_field? found
  obtain ⟨index, -, place⟩ := mem_fields outer
  obtain ⟨other, -, below⟩ := mem_fields member
  refine ⟨fun _ isSection => isSection.position_ne_of_length ?_, fun _ => ?_⟩
  · rw [below, place]
    simp
  · exact notMem_startNodes member fun _ isSection =>
      isSection.position_ne_of_field outer inside (by decide) (by decide)

theorem position_of_target? {target : Node} {link : Text}
    (found : (Node.root document).target? link = some target) :
    target = Node.root document ∨ target.position.length = 2 := by
  unfold target? at found
  split at found
  · exact .inl (Option.some.inj found).symm
  · obtain ⟨path, -, found⟩ := Option.bind_eq_some_iff.mp found
    obtain ⟨⟨group, name⟩, -, found⟩ := Option.bind_eq_some_iff.mp found
    obtain ⟨middle, above, below⟩ := Option.bind_eq_some_iff.mp found
    obtain ⟨index, -, place⟩ := mem_fields (mem_fields_of_field? below)
    obtain ⟨other, -, there⟩ := mem_fields (mem_fields_of_field? above)
    rw [place, there]
    exact .inr rfl

theorem Apart.follows {next : Node} (apart : Apart (Node.root document) node)
    (inside : Inside (Node.root document) node) (step : Follows (Node.root document) node next) :
    Apart (Node.root document) next := by
  -- A reference gets to the root or to an entry of a section, but never to a section itself.
  cases step with
  | reference refers noClass =>
    constructor
    · intro outer isSection
      obtain ⟨link, -, found⟩ := refers
      rcases position_of_target? found with rfl | deep
      · obtain ⟨sectionKey, -, found⟩ := isSection
        obtain ⟨index, -, place⟩ := mem_fields (mem_fields_of_field? found)
        rw [place]
        exact List.cons_ne_nil _ _ ∘ Eq.symm
      · exact isSection.position_ne_of_length (Nat.le_of_eq deep.symm)
    · intro properties
      simp [isObjectSchema, properties] at noClass
  | items _ _ found =>
    have member := mem_fields_of_field? found
    exact ⟨fun _ isSection =>
        isSection.position_ne_of_field member inside (by decide) (by decide),
      fun _ => notMem_startNodes member apart.noSection⟩

theorem Apart.of_chain {last : Node} (apart : Apart (Node.root document) node)
    (inside : Inside (Node.root document) node)
    (chain : Relation.ReflTransGen (Follows (Node.root document)) node last) :
    Apart (Node.root document) last := by
  induction chain with
  | refl => exact apart
  | tail earlier step ih => exact ih.follows (inside_of_chain earlier inside) step

theorem Apart.not_start {target : Node} {base name : Text} {steps : Nat}
    (apart : Apart (Node.root document) node) (inside : Inside (Node.root document) node)
    (found : (Shape.of (Node.root document) steps name node).leaf = .inlineClass base target) :
    target ∉ startNodes (Node.root document) := by
  obtain ⟨last, chain, ending⟩ := Shape.exists_ending (Node.root document) node steps name
  rw [found] at ending
  cases ending with
  | inPlace base declares => exact (apart.of_chain inside chain).noStart declares.properties

theorem positions_fieldsFrom (position : List Nat) (first : Nat)
    (fields : List (Text × Json.Value)) :
    (fieldsFrom position first fields).map (fun field => field.2.position) =
      (List.range' first fields.length).map (· :: position) := by
  induction fields generalizing first with
  | nil => rfl
  | cons field rest ih =>
    obtain ⟨name, value⟩ := field
    rw [fieldsFrom, List.map_cons, ih, List.length_cons, List.range'_succ, List.map_cons]

theorem positions_fields_distinct (node : Node) :
    (node.fields.map fun field => field.2.position).Nodup := by
  rw [fields, positions_fieldsFrom]
  exact List.Nodup.map (fun _ _ same => (List.cons.inj same).1) List.nodup_range'

theorem positions_sectionFields_distinct (root : Node) (key : Text) :
    ((Draft.sectionFields root key).map fun field => field.2.position).Nodup := by
  unfold Draft.sectionFields
  split
  · exact positions_fields_distinct _
  · exact List.nodup_nil

theorem sectionFields_disjoint {first second : Text} {one two : Text × Node}
    (different : first ≠ second)
    (firstMember : one ∈ Draft.sectionFields (Node.root document) first)
    (secondMember : two ∈ Draft.sectionFields (Node.root document) second) :
    one.2.position ≠ two.2.position := by
  intro same
  obtain ⟨outer, found, member⟩ := mem_sectionFields firstMember
  obtain ⟨other, also, place⟩ := mem_sectionFields secondMember
  obtain ⟨index, -, here⟩ := mem_fields member
  obtain ⟨otherIndex, -, there⟩ := mem_fields place
  have sections : outer.position = other.position :=
    (List.cons.inj (here.symm.trans (same.trans there))).2
  exact different (key_eq_of_position (mem_fields_of_field? found) (mem_fields_of_field? also) sections)

theorem startNodes_distinct (document : Json.Value) :
    ((startNodes (Node.root document)).map position).Nodup := by
  rw [startNodes, List.map_cons, List.nodup_cons]
  constructor
  · intro member
    obtain ⟨node, listed, place⟩ := List.mem_map.mp member
    obtain ⟨-, outer, name, -, field⟩ := mem_definitionNodes listed
    obtain ⟨index, -, there⟩ := mem_fields field
    exact List.cons_ne_nil _ _ (there.symm.trans place)
  · have kept := List.Sublist.map (fun field : Text × Node => field.2.position)
      (List.filter_sublist (l := Draft.sectionFields (Node.root document) "definitions".toList ++
        Draft.sectionFields (Node.root document) "$defs".toList)
        (p := fun field => field.2.isObjectSchema))
    rw [definitionNodes, List.map_map]
    refine kept.nodup ?_
    rw [List.map_append, List.nodup_append]
    refine ⟨positions_sectionFields_distinct _ _, positions_sectionFields_distinct _ _, ?_⟩
    intro one first two second
    obtain ⟨field, listed, rfl⟩ := List.mem_map.mp first
    obtain ⟨other, also, rfl⟩ := List.mem_map.mp second
    exact sectionFields_disjoint (by decide) listed also

/-- A schema that a property of a class leads to. -/
def LedTo (root node : Node) : Prop :=
  ∃ owner field, ClassNode root owner ∧ field ∈ owner.propertyFields ∧
    Relation.ReflTransGen (Follows root) field.2 node

theorem LedTo.inside {root : Node} (led : LedTo root node) : Inside root node := by
  obtain ⟨owner, field, classNode, declared, chain⟩ := led
  exact inside_of_chain chain (inside_of_mem_propertyFields classNode.inside declared)

theorem ClassNode.ledTo_or_length (classNode : ClassNode (Node.root document) node) :
    LedTo (Node.root document) node ∨ node = Node.root document ∨ node.position.length = 2 := by
  cases classNode with
  | root => exact .inr (.inl rfl)
  | definition listed =>
    obtain ⟨-, outer, name, isSection, member⟩ := mem_definitionNodes listed
    exact .inr (.inr (isSection.length_of_field member))
  | property outer declared mentions =>
    obtain ⟨last, chain, ⟨declares, rfl⟩ | ⟨⟨link, -, found⟩, -⟩⟩ := mentions.exists_last
    · exact .inl ⟨_, _, outer, declared, chain⟩
    · exact .inr (position_of_target? found)

theorem LedTo.items_of_length (led : LedTo (Node.root document) node)
    (short : node.position.length = 1) :
    (Node.root document).field? "items".toList = some node := by
  obtain ⟨owner, field, classNode, declared, chain⟩ := led
  have inside := inside_of_mem_propertyFields classNode.inside declared
  rcases Relation.ReflTransGen.cases_tail chain with rfl | ⟨before, way, step⟩
  · obtain ⟨properties, found, member⟩ := mem_propertyFields declared
    obtain ⟨index, -, below⟩ := mem_fields member
    obtain ⟨other, -, above⟩ := mem_fields (mem_fields_of_field? found)
    simp [below, above] at short
  · rcases follows_iff.mp step with ⟨⟨link, -, found⟩, -⟩ | array
    · rcases position_of_target? found with rfl | long
      · contradiction
      · rw [long] at short
        contradiction
    · obtain ⟨index, -, place⟩ := mem_fields (mem_fields_of_field? array.found)
      rw [place, List.length_cons, Nat.add_eq_right, List.length_eq_zero_iff] at short
      obtain rfl := (inside_of_chain way inside).eq_of_position .self short
      exact array.found

theorem ClassNode.items_of_length (classNode : ClassNode (Node.root document) node)
    (short : node.position.length = 1) :
    (Node.root document).field? "items".toList = some node := by
  rcases classNode.ledTo_or_length with led | rfl | long
  · exact led.items_of_length short
  · contradiction
  · rw [long] at short
    contradiction

theorem ClassNode.below_items {owner properties : Node}
    (classNode : ClassNode (Node.root document) owner)
    (found : owner.field? "properties".toList = some properties)
    (led : LedTo (Node.root document) properties) :
    ∃ items, (Node.root document).field? "items".toList = some items ∧
      items.position <:+ owner.position := by
  have member := mem_fields_of_field? found
  obtain ⟨index, -, place⟩ := mem_fields member
  induction long : owner.position.length generalizing owner properties index with
  | zero =>
    have items := led.items_of_length (by rw [place, List.length_cons, long])
    obtain rfl := classNode.inside.eq_of_position .self (List.eq_nil_of_length_eq_zero long)
    exact absurd (key_eq_of_position member (mem_fields_of_field? items) rfl) (by decide)
  | succ length ih =>
    obtain ⟨outer, field, outerClass, declared, chain⟩ := led
    have inside := inside_of_mem_propertyFields outerClass.inside declared
    rcases Relation.ReflTransGen.cases_tail chain with rfl | ⟨before, way, step⟩
    · -- The class is itself the properties of another class, so the same holds one level up.
      obtain ⟨above, foundAbove, listed⟩ := mem_propertyFields declared
      have memberAbove := mem_fields_of_field? foundAbove
      obtain ⟨next, -, below⟩ := mem_fields listed
      obtain rfl := (outerClass.inside.of_field? foundAbove).eq_of_position classNode.inside
        (List.cons.inj (below.symm.trans place)).2
      obtain ⟨other, -, placeAbove⟩ := mem_fields memberAbove
      rw [placeAbove, List.length_cons, Nat.add_right_cancel_iff] at long
      rcases classNode.ledTo_or_length with led | rfl | two
      · obtain ⟨items, foundItems, beneath⟩ :=
          ih outerClass foundAbove led memberAbove other placeAbove long
        exact ⟨items, foundItems, beneath.trans (placeAbove ▸ List.suffix_cons ..)⟩
      · contradiction
      · rw [placeAbove, List.length_cons, Nat.add_right_cancel_iff] at two
        exact ⟨outer, outerClass.items_of_length two, placeAbove ▸ List.suffix_cons ..⟩
    · rcases follows_iff.mp step with ⟨⟨link, -, target⟩, -⟩ | array
      · rcases position_of_target? target with rfl | two
        · contradiction
        · rw [place, List.length_cons, Nat.add_right_cancel_iff] at two
          exact ⟨owner, classNode.items_of_length two, List.suffix_rfl⟩
      · have also := mem_fields_of_field? array.found
        obtain ⟨other, -, there⟩ := mem_fields also
        obtain rfl := (inside_of_chain way inside).eq_of_position classNode.inside
          (List.cons.inj (there.symm.trans place)).2
        exact absurd (key_eq_of_position member also rfl) (by decide)

end SchemaClasses.Schema
