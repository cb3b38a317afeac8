import SchemaClasses.Proofs.Schema.Construction

set_option autoImplicit false

namespace SchemaClasses.Schema

open Node

def TypeName.nested : Nat → TypeName → TypeName
  | 0, type => type
  | arrays + 1, type => .list (nested arrays type)

namespace Shape

variable {root node : Node} {names : ClassNames} {owner : Node} {shape : Shape} {arrays : Nat}

theorem type_nested : ((nested arrays shape).resolved names owner).type =
    .nested arrays (shape.resolved names owner).type := by
  induction arrays with
  | zero => rfl
  | succ arrays ih => rw [nested, resolved, Resolved.listOf, ih, TypeName.nested]

theorem type_reference (base : Text) (target : Node) :
    ((reference base target).resolved names owner).type = .named (names.nameFor target) := by
  rw [resolved, Resolved.ofReference]
  split <;> rfl

theorem initializer?_reference_self (base : Text) :
    ((reference base owner).resolved names owner).initializer? = none := by
  rw [resolved, Resolved.ofReference, if_pos rfl]

theorem initializer?_reference {target : Node} (base : Text)
    (apart : target.position ≠ owner.position) :
    ((reference base target).resolved names owner).initializer? =
      some (.construct (names.nameFor target)) := by
  rw [resolved, Resolved.ofReference, if_neg apart, Resolved.ofClass]

theorem plain_of_unnamed (unnamed : ¬ isNamedTarget node = true) :
    node.reference? = none ∧ node.hasProperties = false := by
  obtain ⟨noClass, noReference⟩ := isNamedTarget_eq_false unnamed
  rw [isObjectSchema, Bool.or_eq_false_iff] at noClass
  exact ⟨by rw [reference?, text?, noReference, Option.bind_none], noClass.1⟩

theorem of_untyped (unnamed : ¬ isNamedTarget node = true) (untyped : node.kind = .unspecified)
    (steps : Nat) (name : Text) : of root steps name node = .scalar .object := by
  obtain ⟨plain, noProperties⟩ := plain_of_unnamed unnamed
  cases steps with
  | zero => rfl
  | succ steps => exact (Step.untyped plain (.inr untyped) noProperties).eq_of

theorem of_unnamed (unnamed : ¬ isNamedTarget node = true) (steps : Nat) (name : Text) :
    (∃ type, of root steps name node = .scalar type) ∨
      ∃ item, of root steps name node = .list item := by
  obtain ⟨plain, noProperties⟩ := plain_of_unnamed unnamed
  cases steps with
  | zero => exact .inl ⟨.object, rfl⟩
  | succ steps =>
    have step := step_of root steps name node
    generalize of root (steps + 1) name node = shape at step ⊢
    cases step with
    | scalar | untyped => exact .inl ⟨_, rfl⟩
    | items | anyItems => exact .inr ⟨_, rfl⟩
    | inPlace declares => exact absurd declares.properties (ne_true_of_eq_false noProperties)
    | inlined inlines => exact absurd plain inlines.refers.not_plain
    | named reference | unresolved reference | nameless reference =>
      rw [plain] at reference
      contradiction

theorem of_unnamed_ne_class (root : Node) (names : ClassNames) (owner : Node)
    (unnamed : ¬ isNamedTarget node = true) (steps : Nat) (name className : Text) :
    ((of root steps name node).resolved names owner).type ≠ .named className ∧
      ((of root steps name node).resolved names owner).initializer? ≠
        some (.construct className) := by
  rcases of_unnamed unnamed steps name with ⟨type, shape⟩ | ⟨item, shape⟩
  · rw [shape, resolved]
    simp
  · rw [shape, resolved, Resolved.listOf]
    simp

end Shape

namespace PropertyModel

variable {names : ClassNames} {root owner : Node} {field : Text × Node} {arrays : Nat}
  {className : Text}

theorem type_ofField_of_nested
    (type : ((shapeOf root field).resolved names owner).type = .nested arrays (.named className)) :
    (ofField names root owner field).type = .nested arrays (.named className) := by
  rw [ofField, of, typeFor, type]
  cases arrays <;> rfl

theorem type_ofField_ne_named
    (type : ((shapeOf root field).resolved names owner).type ≠ .named className) :
    (ofField names root owner field).type ≠ .named className := by
  rw [ofField, of, typeFor]
  split
  · split <;> simp
  · exact type

theorem initializer?_ofField
    (noDefault : (field.2.value.field? "default".toList).bind literal? = none) :
    (ofField names root owner field).initializer? =
      ((shapeOf root field).resolved names owner).initializer? := by
  rw [ofField, initializer?_of, noDefault, Option.map_none, Option.none_or]

end PropertyModel

/-- A property that leads to a class: one declared in place, or the target of a reference. -/
structure Mention (root : Node) where
  owner : Node
  field : Text × Node
  arrays : Nat
  last : Node
  target : Node
  outer : ClassNode root owner
  declared : field ∈ owner.propertyFields
  leads : LeadsTo root arrays field.2 last
  stands : StandsFor root last target
  schema : target.isObjectSchema = true

namespace Mention

variable {document : Json.Value} {root : Node}

structure Written (mention : Mention root) (property : PropertyModel) (className : Text) :
    Prop where
  type : property.type = .nested mention.arrays (.named className)
  constructed : (mention.field.2.value.field? "default".toList).bind literal? = none →
    mention.arrays = 0 → mention.target ≠ mention.owner →
      property.initializer? = some (.construct className)
  bare : (mention.field.2.value.field? "default".toList).bind literal? = none →
    mention.arrays = 0 → mention.target = mention.owner → property.initializer? = none

theorem inside (mention : Mention (Node.root document)) :
    Inside (Node.root document) mention.field.2 :=
  inside_of_mem_propertyFields mention.outer.inside mention.declared

theorem classNode (mention : Mention root) : ClassNode root mention.target := by
  refine .property mention.outer mention.declared (.of_chain mention.leads.chain ?_)
  rcases mention.stands with ⟨declares, same⟩ | ⟨refers, -⟩
  · exact same ▸ .inPlace declares
  · exact .reference refers mention.schema

theorem written (mention : Mention (Node.root document)) (names : ClassNames) :
    mention.Written (.ofField names (Node.root document) mention.owner mention.field)
      (names.nameFor mention.target) := by
  rcases mention.stands with ⟨declares, same⟩ | ⟨refers, named⟩
  · have shape := Shape.ofProperty_of_declaresInPlace
      (Naming.pascalCase mention.field.1) mention.inside mention.leads declares
    rw [← PropertyModel.shapeOf, same] at shape
    constructor
    case type => exact PropertyModel.type_ofField_of_nested (by rw [shape, Shape.type_nested]; rfl)
    case constructed =>
      intro noDefault noArray _
      rw [PropertyModel.initializer?_ofField noDefault, shape, noArray]
      rfl
    case bare =>
      intro _ noArray own
      have leads := mention.leads
      rw [noArray] at leads
      exact absurd (own.symm.trans same.symm)
        (ne_of_inPlace mention.declared (leadsTo_zero_iff.mp leads) declares)
  · obtain ⟨base, shape⟩ := Shape.ofProperty_of_refersTo
      (Naming.pascalCase mention.field.1) mention.inside mention.leads refers named
    rw [← PropertyModel.shapeOf] at shape
    constructor
    case type =>
      exact PropertyModel.type_ofField_of_nested
        (by rw [shape, Shape.type_nested, Shape.type_reference])
    case constructed =>
      intro noDefault noArray other
      have apart : mention.target.position ≠ mention.owner.position := fun same =>
        other (refers.inside.eq_of_position mention.outer.inside same)
      rw [PropertyModel.initializer?_ofField noDefault, shape, noArray]
      exact Shape.initializer?_reference base apart
    case bare =>
      intro noDefault noArray own
      rw [PropertyModel.initializer?_ofField noDefault, shape, noArray, own]
      exact Shape.initializer?_reference_self base

end Mention

structure NamesMentions (document : Json.Value) (rootName : Text) (nodes : List Node)
    (names : ClassNames) : Prop extends Emits document rootName nodes names where
  written : ∀ mention : Mention (Node.root document),
    mention.owner ∈ nodes ∧ mention.target ∈ nodes ∧
      mention.Written (.ofField names (Node.root document) mention.owner mention.field)
        (ClassModel.ofNode names (Node.root document) mention.target).name
  same_iff : ∀ one two : Mention (Node.root document),
    names.nameFor one.target = names.nameFor two.target ↔ one.target = two.target

theorem mentions_name_classes (document : Json.Value) (rootName : Text)
    (object : document.isObject = true) :
    ∃ nodes names, NamesMentions document rootName nodes names := by
  obtain ⟨nodes, names, finished⟩ := exists_finished document rootName
  have emits := finished.emits object
  have built (mention : Mention (Node.root document)) : mention.target ∈ nodes :=
    (emits.complete _).mpr mention.classNode
  refine ⟨nodes, names, emits, ?_, ?_⟩
  · exact fun mention =>
      ⟨(emits.complete _).mpr mention.outer, built mention, mention.written names⟩
  · exact fun one two => ⟨emits.apart _ (built one) _ (built two), congrArg _⟩

def gallery : Json.Value :=
  .object [
    ("properties".toList, .object [
      ("cover".toList, .object [("properties".toList, .object [])]),
      ("walls".toList, .object [
        ("type".toList, .string "array".toList),
        ("items".toList, .object [("$ref".toList, .string "#/definitions/Wall".toList)])])]),
    ("definitions".toList, .object [
      ("Wall".toList, .object [
        ("type".toList, .string "array".toList),
        ("items".toList, .object [("$ref".toList, .string "#/definitions/Picture".toList)])]),
      ("Picture".toList, .object [
        ("properties".toList, .object [
          ("frame".toList, .object [
            ("$ref".toList, .string "#/definitions/Picture".toList)])])])])]

theorem mentions_of_gallery : gallery.isObject = true ∧
    (∃ mention : Mention (Node.root gallery), mention.arrays = 2) ∧
    ∃ nodes names, NamesMentions gallery "Gallery".toList nodes names := by
  obtain ⟨field, declared, last, target, leads, stands, schema⟩ :
      ∃ field ∈ (Node.root gallery).propertyFields, ∃ last target,
        LeadsTo (Node.root gallery) 2 field.2 last ∧ StandsFor (Node.root gallery) last target ∧
          target.isObjectSchema = true :=
    ⟨_, List.mem_cons_of_mem _ List.mem_cons_self, _, _,
      .item ⟨rfl, rfl, rfl, rfl⟩ (.inlined ⟨⟨_, rfl, rfl⟩, rfl, rfl⟩
        (.item ⟨rfl, rfl, rfl, rfl⟩ .here)),
      .inr ⟨⟨_, rfl, rfl⟩, rfl⟩, rfl⟩
  exact ⟨rfl, ⟨⟨_, field, 2, last, target, .root, declared, leads, stands, schema⟩, rfl⟩,
    mentions_name_classes gallery "Gallery".toList rfl⟩

example : (classes gallery "Gallery".toList).flatMap (fun model =>
      model.properties.map fun property => (property.type, property.initializer?)) =
    [(.named "Cover".toList, some (.construct "Cover".toList)),
      (.nested 2 (.named "Picture".toList),
        some (.collection (.nested 1 (.named "Picture".toList)))),
      (.named "Picture".toList, none)] := by decide

/-- What a property is written with whose schema refers to the whole document. -/
structure RootReferenceWritten (root owner : Node) (field : Text × Node)
    (property : PropertyModel) (rootName : Text) : Prop where
  type_iff : property.type = .named rootName ↔ Shape.isNamedTarget root = true
  initializer_iff : (field.2.value.field? "default".toList).bind literal? = none →
    (property.initializer? = some (.construct rootName) ↔
      Shape.isNamedTarget root = true ∧ owner ≠ root)
  bare : (field.2.value.field? "default".toList).bind literal? = none →
    Shape.isNamedTarget root = true → owner = root → property.initializer? = none
  untyped : Shape.isNamedTarget root = false → root.kind = .unspecified →
    property.type = .scalar .object

theorem rootReference_of_named {document : Json.Value} {names : ClassNames} {owner : Node}
    {field : Text × Node} (named : Shape.isNamedTarget (Node.root document) = true)
    (inside : Inside (Node.root document) owner) (declared : field ∈ owner.propertyFields)
    (refers : field.2.reference? = some ['#']) :
    RootReferenceWritten (Node.root document) owner field
      (.ofField names (Node.root document) owner field) (names.nameFor (Node.root document)) := by
  obtain ⟨base, shape⟩ := Shape.ofProperty_of_refersTo (Naming.pascalCase field.1)
    (inside_of_mem_propertyFields inside declared) .here ⟨['#'], refers, rfl⟩ named
  rw [← PropertyModel.shapeOf, Shape.nested] at shape
  have type : ((PropertyModel.shapeOf (Node.root document) field).resolved names owner).type =
      .nested 0 (.named (names.nameFor (Node.root document))) := by
    rw [shape]
    exact Shape.type_reference base _
  constructor
  case type_iff => exact iff_of_true (PropertyModel.type_ofField_of_nested type) named
  case initializer_iff =>
    intro noDefault
    rw [PropertyModel.initializer?_ofField noDefault, shape]
    by_cases own : owner = Node.root document
    · rw [own, Shape.initializer?_reference_self]
      simp
    · have apart : (Node.root document).position ≠ owner.position := fun same =>
        own (inside.eq_of_position .self same.symm)
      exact iff_of_true (Shape.initializer?_reference base apart) ⟨named, own⟩
  case bare =>
    intro noDefault _ own
    rw [PropertyModel.initializer?_ofField noDefault, shape, own]
    exact Shape.initializer?_reference_self base
  case untyped => simp [named]

theorem rootReference_of_unnamed {document : Json.Value} {names : ClassNames} {owner : Node}
    {field : Text × Node} (unnamed : ¬ Shape.isNamedTarget (Node.root document) = true)
    (refers : field.2.reference? = some ['#']) (rootName : Text) :
    RootReferenceWritten (Node.root document) owner field
      (.ofField names (Node.root document) owner field) rootName := by
  obtain ⟨noClass, last⟩ := isNamedTarget_eq_false unnamed
  have inlined : PropertyModel.shapeOf (Node.root document) field =
      .of (Node.root document) document.size (Naming.pascalCase field.1) (Node.root document) :=
    Shape.of_inlines _ _ ⟨⟨['#'], refers, rfl⟩, noClass, last⟩
  obtain ⟨noName, noObject⟩ := Shape.of_unnamed_ne_class (Node.root document) names owner unnamed
    document.size (Naming.pascalCase field.1) rootName
  rw [← inlined] at noName noObject
  constructor
  case type_iff => exact iff_of_false (PropertyModel.type_ofField_ne_named noName) unnamed
  case initializer_iff =>
    intro noDefault
    rw [PropertyModel.initializer?_ofField noDefault]
    exact iff_of_false noObject fun both => unnamed both.1
  case bare => exact fun _ named => absurd named unnamed
  case untyped =>
    intro _ untyped
    have shape := inlined.trans (Shape.of_untyped unnamed untyped _ _)
    rw [PropertyModel.ofField, shape]
    rfl

theorem root_reference_named_iff (document : Json.Value) (rootName : Text)
    (object : document.isObject = true) :
    ∃ (nodes : List Node) (names : ClassNames), Emits document rootName nodes names ∧
      ∀ owner ∈ nodes, ∀ field ∈ owner.propertyFields, field.2.reference? = some ['#'] →
        RootReferenceWritten (Node.root document) owner field
          (.ofField names (Node.root document) owner field) rootName := by
  obtain ⟨nodes, names, finished⟩ := exists_finished document rootName
  have emits := finished.emits object
  refine ⟨nodes, names, emits, fun owner member field declared refers => ?_⟩
  have inside := ((emits.complete owner).mp member).inside
  by_cases named : Shape.isNamedTarget (Node.root document) = true
  · exact emits.rootNamed ▸ rootReference_of_named named inside declared refers
  · exact rootReference_of_unnamed named refers rootName

def room : Json.Value :=
  .object [
    ("properties".toList, .object [
      ("next".toList, .object [("$ref".toList, .string ['#'])])]),
    ("definitions".toList, .object [
      ("Box".toList, .object [
        ("properties".toList, .object [
          ("place".toList, .object [("$ref".toList, .string ['#'])])])])])]

theorem root_references_of_room : room.isObject = true ∧
    ∃ (nodes : List Node) (names : ClassNames), Emits room "Room".toList nodes names ∧
      ∀ owner ∈ nodes, ∀ field ∈ owner.propertyFields, field.2.reference? = some ['#'] →
        RootReferenceWritten (Node.root room) owner field
          (.ofField names (Node.root room) owner field) "Room".toList :=
  ⟨rfl, root_reference_named_iff room "Room".toList rfl⟩

example : (classes room "Room".toList).map (fun model =>
      (model.name, model.properties.map fun property => (property.type, property.initializer?))) =
    [("Room".toList, [(.named "Room".toList, none)]),
      ("Box".toList, [(.named "Room".toList, some (.construct "Room".toList))])] := by decide

def bundle : Json.Value :=
  .object [
    ("definitions".toList, .object [
      ("Box".toList, .object [
        ("properties".toList, .object [
          ("outer".toList, .object [("$ref".toList, .string ['#'])])])])])]

theorem root_reference_of_bundle_untyped :
    let models := classes bundle "Root".toList
    bundle.isObject = true ∧ NoLoop (Node.root bundle) ∧
    (∃ owner field, ClassNode (Node.root bundle) owner ∧ field ∈ owner.propertyFields ∧
      field.2.reference? = some ['#']) ∧
    models.map (fun model => (model.name, model.properties.map fun property =>
        (property.jsonName, property.type, property.initializer?))) =
      [("Root".toList, []), ("Box".toList, [("outer".toList, .scalar .object, none)])] ∧
    generate bundle "Boxes".toList "Root".toList =
      .ok (Text.joinWith '\n' (sourceLines "Boxes".toList models)) ∧
    "        public object Outer \x7b get; set; \x7d".toList ∈
      sourceLines "Boxes".toList models ∧
    "        public Root Outer \x7b get; set; \x7d = new Root();".toList ∉
      sourceLines "Boxes".toList models := by
  intro models
  refine ⟨rfl, noLoop_of_endsWithin 3 (by decide), ?_, by decide, rfl, by decide +kernel,
    by decide +kernel⟩
  exact ⟨_, _, .definition List.mem_cons_self, List.mem_cons_self, rfl⟩

end SchemaClasses.Schema
