import SchemaClasses.Proofs.Schema.ClassesInPlace
import SchemaClasses.Proofs.Schema.DefinitionNames

set_option autoImplicit false

namespace SchemaClasses.Schema

open Node

namespace PrimitiveReference

variable {document : Json.Value} {reference : PrimitiveReference document}

theorem sameDefinitions (object : reference.definition.value.isObject = true) :
    SameDefinitions document reference.changed := by
  have kept (group : Text) (either : group = "definitions".toList ∨ group = "$defs".toList) :
      outline (Draft.sectionFields (Node.root document) group) =
        outline (Draft.sectionFields (Node.root reference.changed) group) := by
    rw [reference.sectionFields_changed, outline, outline, List.map_map]
    exact List.map_congr_left fun field member =>
      congrArg (Prod.mk field.1) (reference.isObjectSchema_section object either member).symm
  exact ⟨kept _ (.inl rfl), kept _ (.inr rfl)⟩

theorem isObject_changed : reference.changed.isObject = document.isObject := by
  show (Node.root reference.changed).isObject = (Node.root document).isObject
  rw [← reference.moved_root]
  exact isObject_replace (outside_of_length (Nat.lt_of_lt_of_le Nat.zero_lt_two reference.deep))

variable (reference)

/-- The node at the same position of the changed document, or the copy of a node of the
definition. -/
def Counterpart (one two : Node) : Prop :=
  two.position = one.position ∨ ∃ path, one.position = path ++ reference.definition.position ∧
    two.position = path ++ reference.node.position

/-- The same name, or the names that counterparts have in both documents. Only classes that are
neither the root nor a definition change their names. -/
def SameClass (names otherNames : ClassNames) (one two : Text) : Prop :=
  one = two ∨ ∃ first second,
    Inside (Node.root document) first ∧ Inside (Node.root reference.changed) second ∧
    first ∉ startNodes (Node.root document) ∧ reference.Counterpart first second ∧
    names.nameOf? first = some one ∧ otherNames.nameOf? second = some two

variable {reference}

theorem Matches.counterpart {one two : Node} (both : reference.Matches one two) :
    reference.Counterpart one two := by
  cases both with
  | same => exact .inl rfl
  | copied path _ original copy => exact .inr ⟨path, original, copy⟩

theorem Matches.eq_moved_of_start {one two : Node} (both : reference.Matches one two)
    (start : one ∈ startNodes (Node.root document)) : two = reference.moved one := by
  cases both with
  | same => rfl
  | copied path inside original =>
    have two := reference.length_definition
    rcases List.mem_cons.mp start with rfl | listed
    · have short := congrArg List.length original
      rw [List.length_append, two] at short
      contradiction
    · obtain ⟨schema, outer, name, isSection, member⟩ := mem_definitionNodes listed
      have long := congrArg List.length original
      rw [isSection.length_of_field member, List.length_append, two] at long
      obtain rfl : path = [] := List.eq_nil_of_length_eq_zero (Nat.add_eq_right.mp long.symm)
      obtain rfl := inside.eq_of_position (inside_of_target? reference.found) original
      exact absurd (by rw [Shape.isNamedTarget, schema, Bool.true_or]) reference.primitive

theorem scalar_or_list :
    (∃ type, PropertyModel.shapeOf (Node.root document) (reference.key, reference.node) =
      .scalar type) ∨
    ∃ item, PropertyModel.shapeOf (Node.root document) (reference.key, reference.node) =
      .list item := by
  rw [shapeOf_eq]
  exact Shape.of_unnamed reference.primitive _ _

theorem isObject_of_named {node : Node}
    (stands : (PropertyModel.shapeOf (Node.root document)
      (reference.key, reference.node)).namedNode? = some node) :
    reference.definition.value.isObject = true := by
  by_contra object
  rw [shapeOf_eq, Shape.of_untyped reference.primitive (kind_of_not_object object)] at stands
  contradiction

theorem namesRelated {nodes others : List Node} {names otherNames : ClassNames} {rootName : Text}
    (finished : Finished document rootName nodes names)
    (otherFinished : Finished reference.changed rootName others otherNames)
    (first : reference.owner ∈ nodes) (second : reference.moved reference.owner ∈ others) :
    Shape.Alike.NamesRelated reference.Matches (reference.SameClass names otherNames)
      names otherNames
      (PropertyModel.shapeOf (Node.root document) (reference.key, reference.node))
      (PropertyModel.shapeOf (Node.root reference.changed)
        (reference.key, reference.moved reference.node)) := by
  intro one two stands standsToo both
  have object := isObject_of_named stands
  obtain ⟨inside, named⟩ := finished.named first reference.declared stands
  obtain ⟨insideToo, namedToo⟩ := otherFinished.named second reference.declared_moved standsToo
  by_cases start : one ∈ startNodes (Node.root document)
  · obtain rfl := both.eq_moved_of_start start
    have agree := startNames_agree (sameDefinitions object) finished.more otherFinished.more
    rw [startNodes_changed object, List.map_map] at agree
    exact .inl (List.map_inj_left.mp agree one start)
  · exact .inr ⟨one, two, inside, insideToo, start, both.counterpart, named, namedToo⟩

structure SameInPlace (reference : PrimitiveReference document) (rootName : Text)
    (nodes : List Node) (names : ClassNames) (others : List Node) (otherNames : ClassNames) :
    Prop where
  emits : Emits document rootName nodes names
  emitsChanged : Emits reference.changed rootName others otherNames
  owner : reference.owner ∈ nodes
  ownerChanged : reference.moved reference.owner ∈ others
  declared : (reference.key, reference.moved reference.node) ∈
    (reference.moved reference.owner).propertyFields
  inPlace : (reference.moved reference.node).value = reference.definition.value
  property : PropertyModel.Renamed (reference.SameClass names otherNames)
    (.ofField names (Node.root document) reference.owner (reference.key, reference.node))
    (.ofField otherNames (Node.root reference.changed) (reference.moved reference.owner)
      (reference.key, reference.moved reference.node))

end PrimitiveReference

theorem written_like_in_place (document : Json.Value) (rootName : Text)
    (object : document.isObject = true) (reference : PrimitiveReference document)
    (noDefault : (reference.definition.value.field? "default".toList).bind literal? = none)
    (noLoop : NoLoop (Node.root document)) (still : NoLoop (Node.root reference.changed))
    (emitted : reference.definition.value.isObject = true ∨
      ClassNode (Node.root reference.changed) (reference.moved reference.owner)) :
    ∃ nodes names others otherNames,
      reference.SameInPlace rootName nodes names others otherNames := by
  obtain ⟨nodes, names, finished⟩ := exists_finished document rootName
  obtain ⟨others, otherNames, otherFinished⟩ := exists_finished reference.changed rootName
  have emits := finished.emits object
  have emitsChanged := otherFinished.emits (reference.isObject_changed.trans object)
  have first := (emits.complete _).mpr reference.outer
  have outer := emitted.elim PrimitiveReference.classNode_owner id
  have second := (emitsChanged.complete _).mpr outer
  have inside := inside_of_mem_propertyFields outer.inside reference.declared_moved
  refine ⟨nodes, names, others, otherNames, emits, emitsChanged, first, second,
    reference.declared_moved, reference.value_moved, ?_⟩
  have noDefaultHere : (reference.node.value.field? "default".toList).bind literal? = none := by
    rw [reference.bare]
    rfl
  have noDefaultThere :
      ((reference.moved reference.node).value.field? "default".toList).bind literal? = none := by
    rw [reference.value_moved, noDefault]
  rw [PropertyModel.ofField, PropertyModel.ofField, reference.required_moved]
  have names := PrimitiveReference.namesRelated finished otherFinished first second
  exact PropertyModel.renamed_of_alike (PrimitiveReference.alike_shapeOf noLoop still inside)
    PrimitiveReference.scalar_or_list _ _ (fun _ => .inl rfl) names _ _ noDefaultHere
    noDefaultThere

def streets : Json.Value :=
  .object [
    ("type".toList, .string "array".toList),
    ("items".toList, .object [
      ("properties".toList, .object [
        ("name".toList, .object [("type".toList, .string "string".toList)])])])]

def size : Json.Value :=
  .object [
    ("type".toList, .string "integer".toList),
    ("default".toList, .number (.integer 7))]

def town : Json.Value :=
  .object [
    ("properties".toList, .object [
      ("north".toList, .object [("$ref".toList, .string "#/definitions/Streets".toList)]),
      ("south".toList, .object [("$ref".toList, .string "#/definitions/Streets".toList)]),
      ("size".toList, .object [("$ref".toList, .string "#/definitions/Size".toList)])]),
    ("definitions".toList, .object [("Streets".toList, streets), ("Size".toList, size)])]

def southOfTown : PrimitiveReference town where
  owner := Node.root town
  key := "south".toList
  node := ⟨[1, 0], .object [("$ref".toList, .string "#/definitions/Streets".toList)]⟩
  link := "#/definitions/Streets".toList
  definition := ⟨[0, 1], streets⟩
  outer := .root
  declared := List.mem_cons_of_mem _ List.mem_cons_self
  bare := rfl
  found := rfl
  listed := ⟨_, _, ⟨_, .inl rfl, rfl⟩, List.mem_cons_self⟩
  primitive := by decide

theorem south_of_town_written_like_in_place : town.isObject = true ∧
    (southOfTown.definition.value.field? "default".toList).bind literal? = none ∧
    NoLoop (Node.root town) ∧ NoLoop (Node.root southOfTown.changed) ∧
    southOfTown.definition.value.isObject = true ∧
    ∃ nodes names others otherNames,
      southOfTown.SameInPlace "Town".toList nodes names others otherNames :=
  have noLoop : NoLoop (Node.root town) := noLoop_of_endsWithin 3 (by decide)
  have still : NoLoop (Node.root southOfTown.changed) := noLoop_of_endsWithin 3 (by decide)
  ⟨rfl, rfl, noLoop, still, rfl,
    written_like_in_place town "Town".toList rfl southOfTown rfl noLoop still (.inl rfl)⟩

def sizeOfTown : PrimitiveReference town where
  owner := Node.root town
  key := "size".toList
  node := ⟨[2, 0], .object [("$ref".toList, .string "#/definitions/Size".toList)]⟩
  link := "#/definitions/Size".toList
  definition := ⟨[1, 1], size⟩
  outer := .root
  declared := List.mem_cons_of_mem _ (List.mem_cons_of_mem _ List.mem_cons_self)
  bare := rfl
  found := rfl
  listed := ⟨_, _, ⟨_, .inl rfl, rfl⟩, List.mem_cons_of_mem _ List.mem_cons_self⟩
  primitive := by decide

theorem town_written_differently_in_place :
    let written (document : Json.Value) := (classes document "Town".toList).map fun model =>
      (model.name, model.properties.map fun property =>
        (property.jsonName, property.type, property.initializer?))
    let list (item : String) : TypeName × Option Initializer :=
      (.list (.named item.toList), some (.collection (.named item.toList)))
    let name := ("name".toList, TypeName.scalar .string, (none : Option Initializer))
    town.isObject = true ∧ southOfTown.changed.isObject = true ∧
    sizeOfTown.changed.isObject = true ∧ NoLoop (Node.root town) ∧
    NoLoop (Node.root southOfTown.changed) ∧ NoLoop (Node.root sizeOfTown.changed) ∧
    (∀ document namespaceName,
      document = town ∨ document = southOfTown.changed ∨ document = sizeOfTown.changed →
      generate document namespaceName "Town".toList = .ok (Text.joinWith '\n'
        (sourceLines namespaceName (classes document "Town".toList)))) ∧
    written town =
      [("Town".toList,
        [("north".toList, list "NorthItem"), ("south".toList, list "NorthItem"),
          ("size".toList, .nullable .int, none)]),
        ("NorthItem".toList, [name])] ∧
    written southOfTown.changed =
      [("Town".toList,
        [("north".toList, list "NorthItem"), ("south".toList, list "SouthItem"),
          ("size".toList, .nullable .int, none)]),
        ("NorthItem".toList, [name]), ("SouthItem".toList, [name])] ∧
    written sizeOfTown.changed =
      [("Town".toList,
        [("north".toList, list "NorthItem"), ("south".toList, list "NorthItem"),
          ("size".toList, .scalar .int, some (.literal "7".toList))]),
        ("NorthItem".toList, [name])] := by
  refine ⟨rfl, rfl, rfl, noLoop_of_endsWithin 3 (by decide), noLoop_of_endsWithin 3 (by decide),
    noLoop_of_endsWithin 3 (by decide), ?_, by decide, by decide, by decide⟩
  rintro document namespaceName (rfl | rfl | rfl) <;> rfl

end SchemaClasses.Schema
