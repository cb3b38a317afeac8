import SchemaClasses.Proofs.Schema.OneClassEach

set_option autoImplicit false

namespace SchemaClasses.Schema

open Node

def TypeName.classNames : TypeName → List Text
  | .scalar _ | .nullable _ => []
  | .named className => [className]
  | .list item => item.classNames

def Initializer.classNames : Initializer → List Text
  | .literal _ => []
  | .construct className => [className]
  | .collection item => item.classNames

def PropertyModel.classNames (property : PropertyModel) : List Text :=
  property.type.classNames ++ property.initializer?.toList.flatMap Initializer.classNames

def ClassModel.classNames (model : ClassModel) : List Text :=
  model.properties.flatMap PropertyModel.classNames

theorem Shape.classNames_initializer {names : ClassNames} {owner : Node} {shape : Shape}
    {initializer : Initializer}
    (stands : (shape.resolved names owner).initializer? = some initializer) :
    initializer.classNames = (shape.resolved names owner).type.classNames := by
  cases shape with
  | scalar => contradiction
  | list | inlineClass | unresolved =>
    obtain rfl := Option.some.inj stands
    rfl
  | reference base target =>
    simp only [resolved, Resolved.ofReference] at stands ⊢
    split at stands
    · contradiction
    · rename_i other
      obtain rfl := Option.some.inj stands
      rw [if_neg other]
      rfl

theorem Shape.mem_classNames {names : ClassNames} {owner : Node} {shape : Shape} {name : Text} :
    name ∈ (shape.resolved names owner).type.classNames ↔
      (∃ node, shape.namedNode? = some node ∧ names.nameFor node = name) ∨
        shape.leaf = .unresolved name := by
  induction shape with
  | scalar => simp [resolved, TypeName.classNames, namedNode?, leaf]
  | list item ih => exact ih
  | inlineClass base node =>
    simp [resolved, Resolved.ofClass, TypeName.classNames, namedNode?, leaf, eq_comm]
  | reference base target =>
    have type : (Resolved.ofReference owner target (names.nameFor target)).type =
        .named (names.nameFor target) := by
      unfold Resolved.ofReference
      split <;> rfl
    simp [resolved, type, TypeName.classNames, namedNode?, leaf, eq_comm]
  | unresolved className =>
    simp [resolved, Resolved.ofClass, TypeName.classNames, namedNode?, leaf, eq_comm]

namespace PropertyModel

theorem classNames_typeFor (resolved : Resolved) (required : Bool)
    (initializer? : Option Initializer) :
    (typeFor resolved required initializer?).classNames = resolved.type.classNames := by
  unfold typeFor
  split
  · rename_i type same
    rw [same]
    split <;> rfl
  · rfl

theorem initializer?_of (jsonName : Text) (node : Node) (required : Bool) (resolved : Resolved) :
    (of jsonName node required resolved).initializer? =
      (((node.value.field? "default".toList).bind literal?).map Initializer.literal).or
        resolved.initializer? := by
  simp [of]

theorem mem_classNames_ofField {names : ClassNames} {root owner : Node} {field : Text × Node}
    {name : Text} : name ∈ (ofField names root owner field).classNames ↔
      name ∈ ((shapeOf root field).resolved names owner).type.classNames := by
  have type : (ofField names root owner field).type.classNames =
      ((shapeOf root field).resolved names owner).type.classNames := classNames_typeFor ..
  rw [classNames, type, List.mem_append]
  refine or_iff_left_of_imp fun member => ?_
  obtain ⟨initializer, listed, inside⟩ := List.mem_flatMap.mp member
  rw [ofField, initializer?_of, Option.mem_toList, Option.or_eq_some_iff] at listed
  rcases listed with default | ⟨-, own⟩
  · obtain ⟨text, -, rfl⟩ := Option.map_eq_some_iff.mp default
    contradiction
  · exact Shape.classNames_initializer own ▸ inside

end PropertyModel

theorem ClassModel.mem_classNames_ofNode {names : ClassNames} {root owner : Node} {name : Text} :
    name ∈ (ofNode names root owner).classNames ↔ ∃ field ∈ owner.propertyFields,
      (∃ node, (PropertyModel.shapeOf root field).namedNode? = some node ∧
        names.nameFor node = name) ∨
      (PropertyModel.shapeOf root field).leaf = .unresolved name := by
  simp only [ofNode, classNames, List.flatMap_map, List.mem_flatMap,
    PropertyModel.mem_classNames_ofField, Shape.mem_classNames]

namespace Node

structure IsAlias (node : Node) : Prop where
  noClass : node.isObjectSchema = false
  refers : (node.value.field? "$ref".toList).isSome = true

theorem isNamedTarget_iff {node : Node} :
    Shape.isNamedTarget node = true ↔ node.isObjectSchema = true ∨ node.IsAlias := by
  rw [Shape.isNamedTarget, Bool.or_eq_true]
  cases schema : node.isObjectSchema with
  | true => simp
  | false =>
    exact or_congr_right ⟨fun refers => ⟨schema, refers⟩, fun onlyRefers => onlyRefers.refers⟩

/-- A property of a class leads to a reference to an alias. -/
def MentionsAlias (root target : Node) : Prop :=
  ∃ owner field last, ClassNode root owner ∧ field ∈ owner.propertyFields ∧
    Relation.ReflTransGen (Follows root) field.2 last ∧ RefersTo root last target ∧ target.IsAlias

def IsLocal (root : Node) (link : Text) : Prop :=
  link = ['#'] ∨ ∃ group name outer entry, (group = "definitions".toList ∨ group = "$defs".toList) ∧
    link = "#/".toList ++ group ++ '/' :: name ∧ root.field? group = some outer ∧
      outer.field? name = some entry

def LocalReferences (root : Node) : Prop :=
  ∀ node link, Inside root node → node.reference? = some link → IsLocal root link

theorem reference?_mem_links {document : Json.Value} {node : Node} {link : Text}
    (inside : Inside (root document) node) (refers : node.reference? = some link) :
    link ∈ (all [] document).filterMap reference? :=
  List.mem_filterMap.mpr ⟨node, inside.mem_all, refers⟩

theorem localReferences_of_links {document : Json.Value}
    (links : ∀ link ∈ (all [] document).filterMap reference?, IsLocal (root document) link) :
    LocalReferences (root document) :=
  fun _ link inside refers => links link (reference?_mem_links inside refers)

theorem IsLocal.target?_isSome {root : Node} {link : Text} (isLocal : IsLocal root link) :
    (root.target? link).isSome = true := by
  obtain rfl | ⟨group, name, outer, entry, either, rfl, found, inner⟩ := isLocal
  · rfl
  · have cut : Text.splitOnce? '/' (group ++ '/' :: name) = some (group, name) := by
      rcases either with rfl | rfl <;> rfl
    simp [target?, Text.dropStart?, cut, found, inner]

end Node

theorem not_unresolved_of_local {root node : Node} {steps : Nat} {name className : Text}
    (references : LocalReferences root) (inside : Inside root node) :
    (Shape.of root steps name node).leaf ≠ .unresolved className := by
  intro found
  obtain ⟨last, chain, ending⟩ := Shape.exists_ending root node steps name
  rw [found] at ending
  cases ending with
  | unresolved className reference missing =>
    have target := (references last _ (inside_of_chain chain inside) reference).target?_isSome
    rw [missing] at target
    contradiction

theorem classNode_or_mentionsAlias {root owner target : Node} {field : Text × Node}
    (outer : ClassNode root owner) (declared : field ∈ owner.propertyFields)
    (stands : (PropertyModel.shapeOf root field).namedNode? = some target) :
    ClassNode root target ∨ MentionsAlias root target := by
  obtain ⟨last, chain, ending⟩ : ∃ last, Relation.ReflTransGen (Follows root) field.2 last ∧
      Shape.Ending root last (PropertyModel.shapeOf root field).leaf := Shape.exists_ending ..
  rw [← Shape.namedNode?_leaf] at stands
  generalize (PropertyModel.shapeOf root field).leaf = shape at ending stands
  cases ending with
  | scalar | unresolved => contradiction
  | inPlace base declares =>
    obtain rfl := Option.some.inj stands
    exact .inl (.property outer declared (.of_chain chain (.inPlace declares)))
  | reference base refers named =>
    obtain rfl := Option.some.inj stands
    rcases isNamedTarget_iff.mp named with schema | onlyRefers
    · exact .inl (.property outer declared (.of_chain chain (.reference refers schema)))
    · exact .inr ⟨owner, field, last, outer, declared, chain, refers, onlyRefers⟩

theorem ClassNode.eq_root_of_isAlias {root node : Node} (classNode : ClassNode root node)
    (onlyRefers : node.IsAlias) : node = root := by
  cases classNode with
  | root => rfl
  | definition listed =>
    exact absurd (mem_definitionNodes listed).1 (by simp [onlyRefers.noClass])
  | property outer declared mentions =>
    exact absurd mentions.isObjectSchema (by simp [onlyRefers.noClass])

theorem mem_names_iff {document : Json.Value} {nodes : List Node} {names : ClassNames}
    (agenda : Agenda document nodes names []) {node : Node}
    (inside : Inside (Node.root document) node) (named : (names.nameOf? node).isSome) :
    names.nameFor node ∈
        (nodes.map (ClassModel.ofNode names (Node.root document))).map ClassModel.name ↔
      node ∈ nodes := by
  rw [List.map_map]
  constructor
  · intro member
    obtain ⟨other, listed, same⟩ := List.mem_map.mp member
    have within := agenda.inside (List.mem_append_left _ listed)
    exact agenda.eq_of_nameFor within inside (agenda.named other listed) named same ▸ listed
  · exact fun listed => List.mem_map.mpr ⟨node, listed, rfl⟩

theorem mentioned_classes_emitted_iff (document : Json.Value) (rootName : Text)
    (object : document.isObject = true) (references : LocalReferences (Node.root document)) :
    let models := classes document rootName
    (∀ namespaceName, generate document namespaceName rootName =
      .ok (Text.joinWith '\n' (sourceLines namespaceName models))) ∧
    ((∀ model ∈ models, ∀ name ∈ model.classNames, name ∈ models.map ClassModel.name) ↔
      ∀ target, MentionsAlias (Node.root document) target → target = Node.root document) := by
  intro models
  refine ⟨fun namespaceName => by rw [generate, if_pos object], ?_⟩
  obtain ⟨nodes, names, -, -, agenda, progress⟩ := exists_run document rootName
  have built : models = nodes.map (ClassModel.ofNode names (Node.root document)) :=
    progress.models names (.refl names)
  have complete := mem_built_iff agenda progress
  rw [built]
  constructor
  · rintro closed target ⟨owner, field, last, outer, declared, chain, refers, onlyRefers⟩
    obtain ⟨base, leaf⟩ := Shape.leaf_ofProperty_of_refersTo (Naming.pascalCase field.1)
      (inside_of_mem_propertyFields outer.inside declared) chain refers
      (isNamedTarget_iff.mpr (.inr onlyRefers))
    have stands : (PropertyModel.shapeOf (Node.root document) field).namedNode? = some target := by
      rw [← Shape.namedNode?_leaf, PropertyModel.shapeOf, leaf]
      rfl
    have listed := (complete owner).mpr outer
    have mentioned : names.nameFor target ∈
        (ClassModel.ofNode names (Node.root document) owner).classNames :=
      ClassModel.mem_classNames_ofNode.mpr ⟨field, declared, .inl ⟨target, stands, rfl⟩⟩
    have emitted := closed _ (List.mem_map_of_mem listed) _ mentioned
    have named := progress.closed owner listed field declared target stands
    have classNode := (complete target).mp ((mem_names_iff agenda refers.inside named).mp emitted)
    exact classNode.eq_root_of_isAlias onlyRefers
  · intro noAlias model member name mentioned
    obtain ⟨owner, listed, rfl⟩ := List.mem_map.mp member
    have outer := (complete owner).mp listed
    obtain ⟨field, declared, ⟨target, stands, rfl⟩ | unresolved⟩ :=
      ClassModel.mem_classNames_ofNode.mp mentioned
    · have classNode : ClassNode (Node.root document) target := by
        rcases classNode_or_mentionsAlias outer declared stands with class_ | mentions
        · exact class_
        · exact noAlias target mentions ▸ .root
      have named := progress.closed owner listed field declared target stands
      exact (mem_names_iff agenda classNode.inside named).mpr ((complete target).mpr classNode)
    · have inside := inside_of_mem_propertyFields outer.inside declared
      exact absurd unresolved (not_unresolved_of_local references inside)

def boxInItself : Json.Value :=
  .object [
    ("$ref".toList, .string "#/definitions/Box".toList),
    ("definitions".toList, .object [
      ("Box".toList, .object [
        ("properties".toList, .object [
          ("outer".toList, .object [("$ref".toList, .string ['#'])])])])])]

theorem classes_of_boxInItself_mentioned : boxInItself.isObject = true ∧
    LocalReferences (Node.root boxInItself) ∧
    ∀ model ∈ classes boxInItself "Root".toList, ∀ name ∈ model.classNames,
      name ∈ (classes boxInItself "Root".toList).map ClassModel.name := by
  have links : (Node.all [] boxInItself).filterMap Node.reference? =
      ["#/definitions/Box".toList, ['#']] := by decide
  have references : LocalReferences (Node.root boxInItself) := by
    refine localReferences_of_links ?_
    rw [links]
    simp only [List.forall_mem_cons, List.not_mem_nil, false_implies, implies_true, and_true]
    exact ⟨.inr ⟨"definitions".toList, "Box".toList, _, _, .inl rfl, rfl, rfl, rfl⟩, .inl rfl⟩
  refine ⟨rfl, references, (mentioned_classes_emitted_iff boxInItself "Root".toList rfl
    references).2.mpr ?_⟩
  rintro target ⟨owner, field, last, outer, declared, chain, ⟨link, refers, found⟩, onlyRefers⟩
  have inside := inside_of_chain chain (inside_of_mem_propertyFields outer.inside declared)
  have listed := reference?_mem_links inside refers
  rw [links] at listed
  simp only [List.mem_cons, List.not_mem_nil, or_false] at listed
  rcases listed with rfl | rfl
  · obtain rfl := Option.some.inj found
    exact absurd onlyRefers.noClass (by decide)
  · exact (Option.some.inj found).symm

def pointByAlias : Json.Value :=
  .object [
    ("properties".toList, .object [
      ("x".toList, .object [("$ref".toList, .string "#/definitions/Alias".toList)])]),
    ("definitions".toList, .object [
      ("Alias".toList, .object [("$ref".toList, .string "#/definitions/Point".toList)]),
      ("Point".toList, .object [
        ("type".toList, .string "object".toList),
        ("properties".toList, .object [
          ("y".toList, .object [("type".toList, .string "number".toList)])])])])]

theorem class_of_alias_missing :
    let models := classes pointByAlias "Root".toList
    pointByAlias.isObject = true ∧ LocalReferences (Node.root pointByAlias) ∧
    (∀ node next, Inside (Node.root pointByAlias) node →
      ¬ Follows (Node.root pointByAlias) node next) ∧
    generate pointByAlias "Shapes".toList "Root".toList =
      .ok (Text.joinWith '\n' (sourceLines "Shapes".toList models)) ∧
    "        public Alias X \x7b get; set; \x7d = new Alias();".toList ∈
      sourceLines "Shapes".toList models ∧
    models.map ClassModel.name = ["Root".toList, "Point".toList] ∧
    ¬ ∀ model ∈ models, ∀ name ∈ model.classNames, name ∈ models.map ClassModel.name := by
  intro models
  have links : (Node.all [] pointByAlias).filterMap Node.reference? =
      ["#/definitions/Alias".toList, "#/definitions/Point".toList] := by decide
  have references : LocalReferences (Node.root pointByAlias) := by
    refine localReferences_of_links ?_
    rw [links]
    simp only [List.forall_mem_cons, List.not_mem_nil, false_implies, implies_true, and_true]
    exact ⟨.inr ⟨"definitions".toList, "Alias".toList, _, _, .inl rfl, rfl, rfl, rfl⟩,
      .inr ⟨"definitions".toList, "Point".toList, _, _, .inl rfl, rfl, rfl, rfl⟩⟩
  have noArray : ∀ node ∈ Node.all [] pointByAlias, node.kind ≠ .array := by decide
  refine ⟨rfl, references, ?_, rfl, ?_, ?_, ?_⟩
  · intro node next inside step
    cases step with
    | reference refers noClass last =>
      obtain ⟨link, reference, found⟩ := refers
      have listed := reference?_mem_links inside reference
      rw [links] at listed
      simp only [List.mem_cons, List.not_mem_nil, or_false] at listed
      rcases listed with rfl | rfl
      · obtain rfl := Option.some.inj found
        exact absurd last (by decide)
      · obtain rfl := Option.some.inj found
        exact absurd noClass (by decide)
    | items plain array => exact noArray node inside.mem_all array
  · decide +kernel
  · decide
  · decide

end SchemaClasses.Schema
