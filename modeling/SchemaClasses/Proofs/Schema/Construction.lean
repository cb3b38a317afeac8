import SchemaClasses.Proofs.Schema.MentionedClasses

set_option autoImplicit false

namespace SchemaClasses.Schema

open Node

def ClassModel.Constructs (one two : ClassModel) : Prop :=
  ∃ property ∈ one.properties, property.initializer? = some (.construct two.name)

instance (one two : ClassModel) : Decidable (one.Constructs two) :=
  inferInstanceAs (Decidable (∃ property ∈ one.properties, property.initializer? = _))

def ConstructionStep (models : List ClassModel) (one two : ClassModel) : Prop :=
  one ∈ models ∧ two ∈ models ∧ one.Constructs two

namespace Node

/-- The schema of the target, or one that refers to it. -/
def StandsFor (root last target : Node) : Prop :=
  DeclaresInPlace last ∧ last = target ∨
    RefersTo root last target ∧ Shape.isNamedTarget target = true

/-- A property without a default of its own stands for the target, with no array in between. -/
def Holds (root owner target : Node) : Prop :=
  ∃ field ∈ owner.propertyFields, (field.2.value.field? "default".toList).bind literal? = none ∧
    ∃ last, Relation.ReflTransGen (Inlines root) field.2 last ∧ StandsFor root last target

def HoldsOther (root one two : Node) : Prop :=
  ClassNode root one ∧ ClassNode root two ∧ one ≠ two ∧ Holds root one two

def ReferencesResolve (root : Node) : Prop :=
  ∀ owner field last link, ClassNode root owner → field ∈ owner.propertyFields →
    Relation.ReflTransGen (Follows root) field.2 last → last.reference? = some link →
      (root.target? link).isSome = true

theorem referencesResolve_of_links {document : Json.Value}
    (links : ∀ link ∈ (all [] document).filterMap reference?,
      ((root document).target? link).isSome = true) : ReferencesResolve (root document) :=
  fun _ _ _ link outer declared chain refers => links link (reference?_mem_links
    (inside_of_chain chain (inside_of_mem_propertyFields outer.inside declared)) refers)

end Node

namespace Shape

variable {root node next last target : Node} {steps : Nat} {name : Text}

theorem leaf_eq_self {shape : Shape} (noList : ∀ item, shape ≠ .list item) : shape.leaf = shape := by
  cases shape with
  | list item => exact absurd rfl (noList item)
  | scalar | inlineClass | reference | unresolved => rfl

theorem exists_ending_of_noList (noList : ∀ item, of root steps name node ≠ .list item) :
    ∃ last, Relation.ReflTransGen (Inlines root) node last ∧
      Ending root last (of root steps name node) := by
  induction steps generalizing name node with
  | zero => exact ⟨node, .refl, .scalar .object⟩
  | succ steps ih =>
    rcases ending_or_follows root node steps name with ending | ⟨next, -, step, -⟩
    · exact ⟨node, .refl, leaf_eq_self noList ▸ ending⟩
    · rcases follows_iff.mp step with inlines | array
      · rw [of_inlines steps name inlines] at noList ⊢
        obtain ⟨last, chain, ending⟩ := ih noList
        exact ⟨last, chain.head inlines, ending⟩
      · exact absurd (of_hasItems steps name array) (noList _)

theorem initializer?_resolved_iff {names : ClassNames} {owner : Node} {shape : Shape}
    {className : Text} :
    (shape.resolved names owner).initializer? = some (.construct className) ↔
      (∃ base node, shape = .inlineClass base node ∧ names.nameFor node = className) ∨
      (∃ base target, shape = .reference base target ∧ target.position ≠ owner.position ∧
        names.nameFor target = className) ∨
      shape = .unresolved className := by
  cases shape with
  | scalar | list | inlineClass | unresolved => simp [resolved, Resolved.ofClass, Resolved.listOf]
  | reference base target =>
    by_cases own : target.position = owner.position <;>
      simp [resolved, Resolved.ofReference, Resolved.ofClass, own]

end Shape

theorem PropertyModel.initializer?_ofField_iff {names : ClassNames} {root owner : Node}
    {field : Text × Node} {className : Text} :
    (ofField names root owner field).initializer? = some (.construct className) ↔
      (field.2.value.field? "default".toList).bind literal? = none ∧
        ((shapeOf root field).resolved names owner).initializer? = some (.construct className) := by
  rw [ofField, initializer?_of]
  cases (field.2.value.field? "default".toList).bind literal? <;> simp

theorem ne_of_inPlace {root owner node target : Node} {key : Text}
    (declared : (key, node) ∈ owner.propertyFields)
    (chain : Relation.ReflTransGen (Inlines root) node target) (declares : DeclaresInPlace target) :
    owner ≠ target := by
  rintro rfl
  rcases Relation.ReflTransGen.cases_tail chain with same | ⟨before, -, step⟩
  · obtain ⟨properties, found, member⟩ := mem_propertyFields declared
    obtain ⟨index, -, below⟩ := mem_fields member
    obtain ⟨other, -, place⟩ := mem_fields (mem_fields_of_field? found)
    have deeper := congrArg List.length below
    rw [place, ← same, List.length_cons, List.length_cons] at deeper
    omega
  · have schema := step.noClass
    rw [isObjectSchema, declares.properties] at schema
    cases schema

namespace Agenda

variable {document : Json.Value} {models : List ClassModel} {nodes : List Node}
  {names : ClassNames} {one two : Node}

theorem constructs_iff (agenda : Agenda document nodes names [])
    (progress : Progress document models nodes names)
    (resolve : ReferencesResolve (Node.root document)) (first : one ∈ nodes) (second : two ∈ nodes) :
    (ClassModel.ofNode names (Node.root document) one).Constructs
        (ClassModel.ofNode names (Node.root document) two) ↔
      one ≠ two ∧ Holds (Node.root document) one two := by
  have outer := agenda.sound one (List.mem_append_left _ first)
  have within := agenda.inside (List.mem_append_left _ second)
  constructor
  · rintro ⟨property, listed, starts⟩
    obtain ⟨field, declared, rfl⟩ := List.mem_map.mp listed
    obtain ⟨noDefault, own⟩ := PropertyModel.initializer?_ofField_iff.mp starts
    have inside := inside_of_mem_propertyFields outer.inside declared
    have target_eq {target : Node} (inner : Inside (Node.root document) target)
        (stands : (PropertyModel.shapeOf (Node.root document) field).namedNode? = some target)
        (same : names.nameFor target = names.nameFor two) : target = two :=
      agenda.eq_of_nameFor inner within (progress.closed one first field declared target stands)
        (agenda.named two second) same
    have noList (item : Shape) : Shape.of (Node.root document) ((Node.root document).value.size + 1)
        (Naming.pascalCase field.1) field.2 ≠ .list item := by
      intro made
      rw [PropertyModel.shapeOf, Shape.ofProperty, made] at own
      cases own
    obtain ⟨last, chain, ending⟩ := Shape.exists_ending_of_noList noList
    rw [← Shape.ofProperty, ← PropertyModel.shapeOf] at ending
    have followed := Relation.ReflTransGen.mono (fun _ _ => Inlines.follows) _ _ chain
    rcases Shape.initializer?_resolved_iff.mp own with
      ⟨base, node, shape, same⟩ | ⟨base, target, shape, apart, same⟩ | shape
    · rw [shape] at ending
      cases ending with
      | inPlace base declares =>
        obtain rfl := target_eq (inside_of_chain followed inside) (by rw [shape]; rfl) same
        exact ⟨ne_of_inPlace declared chain declares, field, declared, noDefault, _, chain,
          .inl ⟨declares, rfl⟩⟩
    · rw [shape] at ending
      cases ending with
      | reference base refers named =>
        obtain rfl := target_eq refers.inside (by rw [shape]; rfl) same
        exact ⟨fun own => apart (own ▸ rfl), field, declared, noDefault, _, chain,
          .inr ⟨refers, named⟩⟩
    · rw [shape] at ending
      cases ending with
      | unresolved className reference missing =>
        have found := resolve one field last _ outer declared followed reference
        rw [missing] at found
        cases found
  · rintro ⟨other, field, declared, noDefault, last, chain, stands⟩
    have inside := inside_of_mem_propertyFields outer.inside declared
    have way := leadsTo_zero_iff.mpr chain
    refine ⟨_, List.mem_map_of_mem declared, PropertyModel.initializer?_ofField_iff.mpr
      ⟨noDefault, Shape.initializer?_resolved_iff.mpr ?_⟩⟩
    rcases stands with ⟨declares, rfl⟩ | ⟨refers, named⟩
    · exact .inl ⟨_, last, Shape.ofProperty_of_declaresInPlace _ inside way declares, rfl⟩
    · obtain ⟨base, shape⟩ :=
        Shape.ofProperty_of_refersTo (Naming.pascalCase field.1) inside way refers named
      have apart : two.position ≠ one.position := fun same =>
        other (outer.inside.eq_of_position within same.symm)
      exact .inr (.inl ⟨base, two, shape, apart, rfl⟩)

theorem exists_node_of_construction (agenda : Agenda document nodes names [])
    (progress : Progress document models nodes names)
    (resolve : ReferencesResolve (Node.root document)) (first : one ∈ nodes) {model : ClassModel}
    (way : Relation.TransGen (ConstructionStep
      (nodes.map (ClassModel.ofNode names (Node.root document))))
        (ClassModel.ofNode names (Node.root document) one) model) :
    ∃ two ∈ nodes, ClassModel.ofNode names (Node.root document) two = model ∧
      Relation.TransGen (HoldsOther (Node.root document)) one two := by
  have step {start next : Node} (outer : start ∈ nodes) (inner : next ∈ nodes)
      (constructs : (ClassModel.ofNode names (Node.root document) start).Constructs
        (ClassModel.ofNode names (Node.root document) next)) :
      HoldsOther (Node.root document) start next :=
    ⟨agenda.sound start (List.mem_append_left _ outer),
      agenda.sound next (List.mem_append_left _ inner),
      (agenda.constructs_iff progress resolve outer inner).mp constructs⟩
  induction way with
  | single last =>
    obtain ⟨-, listed, constructs⟩ := last
    obtain ⟨two, second, rfl⟩ := List.mem_map.mp listed
    exact ⟨two, second, rfl, .single (step first second constructs)⟩
  | tail _ last ih =>
    obtain ⟨middle, between, rfl, earlier⟩ := ih
    obtain ⟨-, listed, constructs⟩ := last
    obtain ⟨two, second, rfl⟩ := List.mem_map.mp listed
    exact ⟨two, second, rfl, earlier.tail (step between second constructs)⟩

end Agenda

theorem constructions_acyclic_iff (document : Json.Value) (rootName : Text)
    (object : document.isObject = true) (resolve : ReferencesResolve (Node.root document)) :
    let root := Node.root document
    let models := classes document rootName
    (∀ namespaceName, generate document namespaceName rootName =
      .ok (Text.joinWith '\n' (sourceLines namespaceName models))) ∧
    (∃ (nodes : List Node) (names : ClassNames),
      models = nodes.map (ClassModel.ofNode names root) ∧
      (∀ node, node ∈ nodes ↔ ClassNode root node) ∧
      ∀ one ∈ nodes, ∀ two ∈ nodes,
        (ClassModel.ofNode names root one).Constructs (ClassModel.ofNode names root two) ↔
          one ≠ two ∧ Holds root one two) ∧
    (∀ model ∈ models, ¬ model.Constructs model) ∧
    ((∀ model, ¬ Relation.TransGen (ConstructionStep models) model model) ↔
      ∀ node, ¬ Relation.TransGen (HoldsOther root) node node) := by
  intro root models
  obtain ⟨nodes, names, -, -, agenda, progress⟩ := exists_run document rootName
  have built : models = nodes.map (ClassModel.ofNode names root) :=
    progress.models names (.refl names)
  have complete := mem_built_iff agenda progress
  have edges {one two : Node} (first : one ∈ nodes) (second : two ∈ nodes) :=
    agenda.constructs_iff progress resolve first second
  refine ⟨fun namespaceName => by rw [generate, if_pos object],
    ⟨nodes, names, built, complete, fun one first two second => edges first second⟩, ?_, ?_⟩
  · intro model listed constructs
    rw [built] at listed
    obtain ⟨node, member, rfl⟩ := List.mem_map.mp listed
    exact ((edges member member).mp constructs).1 rfl
  · rw [built]
    constructor
    · intro acyclic node cycle
      refine acyclic (ClassModel.ofNode names root node) (cycle.lift _ ?_)
      rintro one two ⟨outer, inner, holds⟩
      have first := (complete one).mpr outer
      have second := (complete two).mpr inner
      exact ⟨List.mem_map_of_mem first, List.mem_map_of_mem second,
        (edges first second).mpr holds⟩
    · intro acyclic model cycle
      obtain ⟨-, ⟨listed, -⟩, -⟩ := Relation.TransGen.head'_iff.mp cycle
      obtain ⟨one, first, rfl⟩ := List.mem_map.mp listed
      obtain ⟨two, second, same, way⟩ :=
        agenda.exists_node_of_construction progress resolve first cycle
      -- The way ends at a class of the same name, and so at the node that it starts at.
      have within {node : Node} (member : node ∈ nodes) :=
        agenda.inside (List.mem_append_left _ member)
      obtain rfl : two = one := agenda.eq_of_nameFor (within second) (within first)
        (agenda.named two second) (agenda.named one first) (congrArg ClassModel.name same)
      exact acyclic two way

theorem acyclic_of_rank {models : List ClassModel} (rank : ClassModel → Nat)
    (rises : ∀ one ∈ models, ∀ two ∈ models, one.Constructs two → rank one < rank two) :
    ∀ model, ¬ Relation.TransGen (ConstructionStep models) model model := by
  intro model cycle
  have climbs : Relation.TransGen (· < ·) (rank model) (rank model) :=
    cycle.lift rank fun one two ⟨first, second, constructs⟩ => rises one first two second constructs
  rw [Relation.transGen_eq_self] at climbs
  exact Nat.lt_irrefl _ climbs

def forest : Json.Value :=
  .object [
    ("properties".toList, .object [
      ("oldest".toList, .object [("$ref".toList, .string "#/definitions/Tree".toList)])]),
    ("definitions".toList, .object [
      ("Tree".toList, .object [
        ("properties".toList, .object [
          ("parent".toList, .object [("$ref".toList, .string "#/definitions/Tree".toList)]),
          ("label".toList, .object [("properties".toList, .object [])]),
          ("forests".toList, .object [
            ("type".toList, .string "array".toList),
            ("items".toList, .object [("$ref".toList, .string ['#'])])])])])])]

theorem constructions_of_forest_end : forest.isObject = true ∧
    ReferencesResolve (Node.root forest) ∧
    (classes forest "Forest".toList).map ClassModel.name =
      ["Forest".toList, "Tree".toList, "Label".toList] ∧
    (∃ one ∈ classes forest "Forest".toList, ∃ two ∈ classes forest "Forest".toList,
      one.Constructs two) ∧
    (∀ model ∈ classes forest "Forest".toList, ¬ model.Constructs model) ∧
    ∀ node, ¬ Relation.TransGen (HoldsOther (Node.root forest)) node node := by
  have resolve : ReferencesResolve (Node.root forest) := referencesResolve_of_links (by decide)
  have facts := (constructions_acyclic_iff forest "Forest".toList rfl resolve).2.2
  refine ⟨rfl, resolve, by decide, by decide, facts.1, facts.2.mp ?_⟩
  exact acyclic_of_rank (classes forest "Forest".toList).idxOf (by decide)

def shellGame : Json.Value :=
  .object [
    ("definitions".toList, .object [
      ("Pea".toList, .object [
        ("properties".toList, .object [
          ("under".toList, .object [("$ref".toList, .string "#/definitions/Shell".toList)])])]),
      ("Shell".toList, .object [
        ("properties".toList, .object [
          ("over".toList, .object [("$ref".toList, .string "#/definitions/Pea".toList)])])])])]

theorem constructions_of_shellGame_go_on :
    let models := classes shellGame "Game".toList
    shellGame.isObject = true ∧
    (∀ node link, Inside (Node.root shellGame) node → node.reference? = some link →
      ((Node.root shellGame).target? link).isSome = true) ∧
    (∀ node next, Inside (Node.root shellGame) node → ¬ Follows (Node.root shellGame) node next) ∧
    generate shellGame "Games".toList "Game".toList =
      .ok (Text.joinWith '\n' (sourceLines "Games".toList models)) ∧
    "        public Shell Under \x7b get; set; \x7d = new Shell();".toList ∈
      sourceLines "Games".toList models ∧
    "        public Pea Over \x7b get; set; \x7d = new Pea();".toList ∈
      sourceLines "Games".toList models ∧
    ∃ model ∈ models, Relation.TransGen (ConstructionStep models) model model := by
  intro models
  have schemas : ∀ link ∈ (Node.all [] shellGame).filterMap Node.reference?,
      ((Node.root shellGame).target? link).any isObjectSchema = true := by decide
  have noArray : ∀ node ∈ Node.all [] shellGame, node.kind ≠ .array := by decide
  have both : ∃ pea ∈ models, ∃ shell ∈ models, pea.Constructs shell ∧ shell.Constructs pea := by
    decide
  refine ⟨rfl, ?_, ?_, rfl, by decide +kernel, by decide +kernel, ?_⟩
  · intro node link inside refers
    obtain ⟨target, found, -⟩ := (Option.any_eq_true ..).mp
      (schemas link (reference?_mem_links inside refers))
    rw [found, Option.isSome_some]
  · intro node next inside step
    cases step with
    | reference refers noClass =>
      obtain ⟨link, reference, found⟩ := refers
      have schema := schemas link (reference?_mem_links inside reference)
      rw [found, Option.any_some, noClass] at schema
      cases schema
    | items plain array => exact noArray node inside.mem_all array
  · obtain ⟨pea, first, shell, second, hides, hidden⟩ := both
    exact ⟨pea, first, .tail (.single ⟨first, second, hides⟩) ⟨second, first, hidden⟩⟩

end SchemaClasses.Schema
