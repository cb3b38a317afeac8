import SchemaClasses.Proofs.Schema.InlinedDefinitions

set_option autoImplicit false

namespace SchemaClasses.Schema

open Node

namespace PrimitiveReference

variable {document : Json.Value} {reference : PrimitiveReference document}

theorem section_outside {outer node : Node} {name : Text}
    (isSection : IsSection (Node.root document) outer) (member : (name, node) ∈ outer.fields) :
    ¬ reference.node.position <:+ node.position := by
  intro deeper
  obtain ⟨index, -, below⟩ := mem_fields member
  obtain ⟨properties, other, last, place, -, position, -⟩ := reference.exists_position
  have short : node.position.length ≤ reference.node.position.length :=
    (isSection.length_of_field member).symm ▸ reference.deep
  -- The property would be an entry of the section, but it is in the properties of its owner.
  have same := deeper.eq_of_length (Nat.le_antisymm deeper.length_le short)
  rw [position, below] at same
  have apart := IsSection.position_ne_of_field isSection (mem_fields_of_field? place)
    reference.outer.inside (by decide) (by decide)
  exact apart (List.cons.inj same).2

theorem isObjectSchema_section {group : Text} {field : Text × Node}
    (object : reference.definition.value.isObject = true)
    (either : group = "definitions".toList ∨ group = "$defs".toList)
    (member : field ∈ Draft.sectionFields (Node.root document) group) :
    (reference.moved field.2).isObjectSchema = field.2.isObjectSchema := by
  obtain ⟨outer, found, inner⟩ := mem_sectionFields member
  have both : reference.Matches field.2 (reference.moved field.2) :=
    .same ((Inside.self.of_field? found).field inner)
      (section_outside ⟨group, either, found⟩ inner)
  exact (both.looksLike object).isObjectSchema.symm

theorem sectionFields_changed (group : Text) :
    Draft.sectionFields (Node.root reference.changed) group =
      (Draft.sectionFields (Node.root document) group).map fun field =>
        (field.1, reference.moved field.2) := by
  rw [← reference.moved_root]
  exact sectionFields_replace reference.deep group

theorem startNodes_changed (object : reference.definition.value.isObject = true) :
    startNodes (Node.root reference.changed) =
      (startNodes (Node.root document)).map reference.moved := by
  have kept (group : Text) (either : group = "definitions".toList ∨ group = "$defs".toList) :
      (Draft.sectionFields (Node.root reference.changed) group).filter
          (fun field => field.2.isObjectSchema) =
        ((Draft.sectionFields (Node.root document) group).filter
          fun field => field.2.isObjectSchema).map fun field =>
            (field.1, reference.moved field.2) := by
    rw [reference.sectionFields_changed, List.filter_map]
    exact congrArg _ (List.filter_congr fun field member =>
      reference.isObjectSchema_section object either member)
  rw [startNodes, startNodes, definitionNodes, definitionNodes, List.filter_append,
    List.filter_append, kept _ (.inl rfl), kept _ (.inr rfl), ← List.map_append, List.map_map,
    List.map_cons, List.map_map, reference.moved_root]
  rfl

theorem kept_start {start : Node} (listed : start ∈ startNodes (Node.root document)) :
    reference.Kept start (reference.moved start) := by
  refine ⟨rfl, ?_⟩
  rcases List.mem_cons.mp listed with rfl | definition
  · exact outside_of_length (Nat.lt_of_lt_of_le Nat.zero_lt_two reference.deep)
  · obtain ⟨-, outer, name, isSection, member⟩ := mem_definitionNodes definition
    exact section_outside isSection member

theorem classNode_start (object : reference.definition.value.isObject = true) {start : Node}
    (listed : start ∈ startNodes (Node.root document)) :
    ClassNode (Node.root reference.changed) (reference.moved start) := by
  refine .of_start ?_
  rw [startNodes_changed object]
  exact List.mem_map_of_mem listed

theorem isObjectSchema_node : reference.node.isObjectSchema = false := by
  rw [Node.isObjectSchema, hasProperties_eq, Node.kind, reference.bare]
  rfl

variable (reference)

def MeetsItems (one : Node) : Prop :=
  ∃ array, Relation.ReflTransGen (Follows (Node.root document)) one array ∧
    HasItems array reference.node

variable {reference}

theorem MeetsItems.head {one next : Node} (step : Follows (Node.root document) one next)
    (later : reference.MeetsItems next) : reference.MeetsItems one := by
  obtain ⟨array, chain, items⟩ := later
  exact ⟨array, chain.head step, items⟩

theorem named : Shape.isNamedTarget reference.node = true := by
  rw [Shape.isNamedTarget, reference.bare, Bool.or_eq_true]
  exact .inr rfl

theorem exists_mentions (object : reference.definition.value.isObject = true)
    {one two target : Node} (mentions : Mentions (Node.root document) one target)
    (meets : reference.Meets one two) :
    ∃ also, Mentions (Node.root reference.changed) two also ∧ reference.Matches target also ∧
      (reference.Kept one two → reference.Kept target also ∨ reference.MeetsItems one) := by
  induction mentions generalizing two with
  | inPlace declares =>
    rcases meets with both | ⟨rfl, -⟩
    · have looks := both.looksLike object
      refine ⟨two, .inPlace ⟨?_, ?_, ?_⟩, both, .inl⟩
      · exact looks.reference?.symm.trans declares.plain
      · exact looks.kind ▸ declares.kind
      · exact looks.hasProperties.symm.trans declares.properties
    · exact absurd declares.plain reference.inlines.refers.not_plain
  | @reference one target refers schema =>
    rcases meets with both | ⟨rfl, -⟩
    · obtain ⟨link, own, found⟩ := refers
      have apart : target ≠ reference.node := by
        rintro rfl
        rw [isObjectSchema_node] at schema
        contradiction
      have kept := kept_target found apart
      have matched := kept.matches (inside_of_target? found)
      exact ⟨_, .reference (both.refersTo object ⟨link, own, found⟩)
        ((matched.looksLike object).isObjectSchema.symm.trans schema), matched, fun _ => .inl kept⟩
    · obtain rfl := refers.target_eq reference.inlines.refers
      rw [reference.inlines.noClass] at schema
      contradiction
  | @follow one next target step later ih =>
    rcases follows_iff.mp step with inlined | array
    · rcases meets with both | ⟨rfl, rfl⟩
      · obtain ⟨link, own, found⟩ := inlined.refers
        have apart : next ≠ reference.node := by
          rintro rfl
          exact inlined.unnamed reference.named
        have kept := kept_target found apart
        have matched := kept.matches (inside_of_target? found)
        obtain ⟨also, mentions, targets, follows⟩ := ih (.inl matched)
        have goesOn := (both.refersTo object inlined.refers).inlines
          ((matched.looksLike object).isNamedTarget ▸ inlined.unnamed)
        exact ⟨also, .follow goesOn.follows mentions, targets, fun _ =>
          (follows kept).imp_right (.head step)⟩
      · -- The changed property stands where the definition stands, without a step to it.
        obtain rfl := inlined.refers.target_eq reference.inlines.refers
        obtain ⟨also, mentions, targets, -⟩ := ih (.inl reference.matches_definition)
        exact ⟨also, mentions, targets, fun kept => absurd List.suffix_rfl kept.outside⟩
    · rcases meets with both | ⟨rfl, -⟩
      · obtain ⟨items, found, within, same⟩ := both.exists_field? array.found
        have looks := both.looksLike object
        have goesOn : HasItems two items :=
          ⟨looks.reference?.symm.trans array.plain, looks.kind.symm.trans array.kind, found,
            (within.isObject object).symm.trans array.schema⟩
        obtain ⟨also, mentions, targets, follows⟩ := ih within
        refine ⟨also, .follow goesOn.follows mentions, targets, fun kept => ?_⟩
        by_cases own : next = reference.node
        · exact .inr ⟨one, .refl, own ▸ array⟩
        · have outside := outside_of_field both.inside kept.outside
            (mem_fields_of_field? array.found) own
          exact (follows ⟨same kept, outside⟩).imp_right (.head step)
      · exact absurd array.plain reference.inlines.refers.not_plain

theorem owner_eq {owner : Node} {key : Text} (inside : Inside (Node.root document) owner)
    (declared : (key, reference.node) ∈ owner.propertyFields) : owner = reference.owner := by
  obtain ⟨properties, found, member⟩ := mem_propertyFields declared
  obtain ⟨index, -, below⟩ := mem_fields member
  obtain ⟨other, -, above⟩ := mem_fields (mem_fields_of_field? found)
  obtain ⟨outer, next, last, -, -, position, place⟩ := reference.exists_position
  refine inside.eq_of_position reference.outer.inside ?_
  rw [above] at below
  rw [place] at position
  exact (List.cons.inj (List.cons.inj (below.symm.trans position)).2).2

theorem not_object_of_field_node {key : Text} {child : Node}
    (member : (key, child) ∈ reference.node.fields) : ¬ child.value.isObject = true := by
  obtain ⟨index, found, -⟩ := mem_fields member
  rw [reference.bare] at found
  cases index with
  | zero =>
    have same : .string reference.link = child.value := (Prod.mk.inj (Option.some.inj found)).2
    rw [← same]
    exact Bool.false_ne_true
  | succ index => contradiction

theorem Matches.exists_propertyField {one two node : Node} {key : Text}
    (both : reference.Matches one two) (declared : (key, node) ∈ one.propertyFields)
    (schema : node.value.isObject = true) :
    ∃ also, (key, also) ∈ two.propertyFields ∧ reference.Meets node also ∧
      (reference.Kept one two → node ≠ reference.node → reference.Kept node also) := by
  obtain ⟨properties, found, member⟩ := mem_propertyFields declared
  obtain ⟨others, foundToo, meets, same⟩ := both.exists_field? found
  have apart : properties ≠ reference.node := by
    rintro rfl
    exact not_object_of_field_node member schema
  have inner := meets.resolve_right fun own => apart own.1
  obtain ⟨change, fields, within, keeps⟩ := inner.exists_fields
  have memberToo : (key, change node) ∈ others.fields :=
    fields ▸ List.mem_map.mpr ⟨_, member, rfl⟩
  refine ⟨change node, mem_propertyFields_of foundToo memberToo, within key node member,
    fun kept own => ?_⟩
  have outside := outside_of_field both.inside kept.outside (mem_fields_of_field? found) apart
  exact ⟨congrFun (keeps ⟨same kept, outside⟩) node,
    outside_of_field inner.inside outside member own⟩

theorem exists_classNode (object : reference.definition.value.isObject = true) {one : Node}
    (classNode : ClassNode (Node.root document) one) :
    ∃ two, ClassNode (Node.root reference.changed) two ∧ reference.Matches one two ∧
      (reference.Kept one two ∨
        ClassNode (Node.root reference.changed) (reference.moved reference.owner) ∨
        ∃ array, LedTo (Node.root document) array ∧ HasItems array reference.node) := by
  have start {start : Node} (listed : start ∈ startNodes (Node.root document)) :
      ∃ two, ClassNode (Node.root reference.changed) two ∧ reference.Matches start two ∧
        reference.Kept start two :=
    ⟨reference.moved start, classNode_start object listed,
      (kept_start listed).matches (ClassNode.of_start listed).inside, kept_start listed⟩
  induction classNode with
  | root =>
    obtain ⟨two, classNode, both, kept⟩ := start List.mem_cons_self
    exact ⟨two, classNode, both, .inl kept⟩
  | definition listed =>
    obtain ⟨two, classNode, both, kept⟩ := start (List.mem_cons_of_mem _ listed)
    exact ⟨two, classNode, both, .inl kept⟩
  | @property owner node target key outer declared mentions ih =>
    obtain ⟨other, outerToo, both, hold⟩ := ih
    obtain ⟨also, declaredToo, meets, keeps⟩ :=
      both.exists_propertyField declared mentions.isObject_value
    obtain ⟨two, mentionsToo, targets, follows⟩ := exists_mentions object mentions meets
    refine ⟨two, .property outerToo declaredToo mentionsToo, targets, ?_⟩
    rcases hold with kept | earlier
    · by_cases own : node = reference.node
      · obtain rfl := reference.owner_eq outer.inside (own ▸ declared)
        exact .inr (.inl (kept.same ▸ outerToo))
      · refine (follows (keeps kept own)).imp_right fun meetsItems => .inr ?_
        obtain ⟨array, chain, items⟩ := meetsItems
        exact ⟨array, ⟨owner, (key, node), outer, declared, chain⟩, items⟩
    · exact .inr earlier

theorem classNode_owner (object : reference.definition.value.isObject = true) :
    ClassNode (Node.root reference.changed) (reference.moved reference.owner) := by
  obtain ⟨two, classNode, both, kept | earlier | ⟨array, led, items⟩⟩ :=
    exists_classNode object reference.outer
  · exact kept.same ▸ classNode
  · exact earlier
  · cases both with
    | same => exact classNode
    | copied path inside original =>
      -- The class would be below a section and below the items of the document.
      obtain ⟨properties, index, other, found, -, below, -⟩ := reference.exists_position
      obtain ⟨also, -, place⟩ := mem_fields (mem_fields_of_field? items.found)
      obtain rfl := led.inside.eq_of_position (inside.of_field? found)
        (List.cons.inj (place.symm.trans below)).2
      obtain ⟨top, foundTop, beneath⟩ := reference.outer.below_items found led
      obtain ⟨name, outer, isSection, member⟩ := reference.listed
      obtain ⟨next, -, entry⟩ := mem_fields member
      have within : outer.position <:+ reference.owner.position :=
        (entry ▸ List.suffix_cons next outer.position).trans ⟨path, original.symm⟩
      have listedTop := mem_fields_of_field? foundTop
      have long : top.position.length = outer.position.length := by
        obtain ⟨group, -, foundOuter⟩ := isSection
        obtain ⟨one, -, first⟩ := mem_fields listedTop
        obtain ⟨two, -, second⟩ := mem_fields (mem_fields_of_field? foundOuter)
        rw [first, second, List.length_cons, List.length_cons]
      have same :=
        (List.suffix_of_suffix_length_le beneath within (Nat.le_of_eq long)).eq_of_length long
      exact absurd same (isSection.position_ne_of_field listedTop .self (by decide) (by decide))

end PrimitiveReference

end SchemaClasses.Schema
