import SchemaClasses.Proofs.Schema.Renaming
import SchemaClasses.Proofs.Schema.Replacement

set_option autoImplicit false

/-!
References to definitions that declare no class, and documents with the schema of the definition
in place of such a reference (`PrimitiveReference.changed`). Both schemas lead through matching
nodes to shapes that are alike (`PrimitiveReference.alike_shapeOf`), as long as the schema in place
does not lead back to itself.
-/

namespace SchemaClasses.Schema

open Node

/-- A property whose schema is nothing but a reference to a definition that declares no class. -/
structure PrimitiveReference (document : Json.Value) where
  owner : Node
  key : Text
  node : Node
  link : Text
  definition : Node
  outer : ClassNode (Node.root document) owner
  declared : (key, node) ∈ owner.propertyFields
  bare : node.value = .object [("$ref".toList, .string link)]
  found : (Node.root document).target? link = some definition
  listed : ∃ name outer, IsSection (Node.root document) outer ∧ (name, definition) ∈ outer.fields
  primitive : ¬ Shape.isNamedTarget definition = true

namespace PrimitiveReference

variable {document : Json.Value} (reference : PrimitiveReference document)

def moved (node : Node) : Node :=
  node.replace reference.node.position reference.definition.value

def changed : Json.Value :=
  document.replaceAt reference.node.position.reverse reference.definition.value

theorem moved_root : reference.moved (Node.root document) = Node.root reference.changed :=
  replace_root ..

theorem inside : Inside (Node.root document) reference.node :=
  inside_of_mem_propertyFields reference.outer.inside reference.declared

theorem inlines : Inlines (Node.root document) reference.node reference.definition := by
  refine RefersTo.inlines ⟨reference.link, ?_, reference.found⟩ reference.primitive
  rw [reference?, text?, reference.bare]
  rfl

theorem length_definition : reference.definition.position.length = 2 := by
  obtain ⟨name, outer, isSection, member⟩ := reference.listed
  exact isSection.length_of_field member

theorem value_moved : (reference.moved reference.node).value = reference.definition.value :=
  value_replace (List.nil_append _)

theorem exists_position : ∃ properties index other,
    reference.owner.field? "properties".toList = some properties ∧
      (reference.key, reference.node) ∈ properties.fields ∧
      reference.node.position = index :: properties.position ∧
      properties.position = other :: reference.owner.position := by
  obtain ⟨properties, found, member⟩ := mem_propertyFields reference.declared
  obtain ⟨index, -, below⟩ := mem_fields member
  obtain ⟨other, -, above⟩ := mem_fields (mem_fields_of_field? found)
  exact ⟨properties, index, other, found, member, below, above⟩

theorem deep : 2 ≤ reference.node.position.length := by
  obtain ⟨properties, index, other, -, -, below, above⟩ := reference.exists_position
  rw [below, above]
  simp

theorem owner_outside : ¬ reference.node.position <:+ reference.owner.position := by
  obtain ⟨properties, index, other, -, -, below, above⟩ := reference.exists_position
  exact outside_of_length (by rw [below, above, List.length_cons, List.length_cons]; omega)

theorem declared_moved : (reference.key, reference.moved reference.node) ∈
    (reference.moved reference.owner).propertyFields := by
  have kept : (reference.moved reference.owner).propertyFields =
      reference.owner.propertyFields.map fun field => (field.1, reference.moved field.2) := by
    refine propertyFields_replace reference.owner_outside fun outer also => ?_
    obtain ⟨properties, index, other, found, -, below, -⟩ := reference.exists_position
    obtain rfl := Option.some.inj (found.symm.trans also)
    exact outside_of_length (by rw [below, List.length_cons]; omega)
  rw [kept]
  exact List.mem_map.mpr ⟨_, reference.declared, rfl⟩

theorem field?_owner {key : Text} (other : key ≠ "properties".toList) :
    (reference.moved reference.owner).value.field? key = reference.owner.value.field? key := by
  have moves : (reference.moved reference.owner).field? key = _ :=
    field?_replace reference.owner_outside key
  rw [field?_value, field?_value, moves, Option.map_map]
  cases found : reference.owner.field? key with
  | none => rfl
  | some child =>
    have kept : reference.moved child = child := by
      refine replace_of_not_above fun above => other ?_
      obtain ⟨properties, index, next, place, -, below, position⟩ := reference.exists_position
      have member := mem_fields_of_field? found
      obtain ⟨also, -, here⟩ := mem_fields member
      -- What is above the property at this depth is the object that it is in.
      have beside : properties.position <:+ reference.node.position := below ▸ List.suffix_cons ..
      have long : child.position.length = properties.position.length := by
        rw [here, position, List.length_cons, List.length_cons]
      exact key_eq_of_position member (mem_fields_of_field? place)
        ((List.suffix_of_suffix_length_le above beside (Nat.le_of_eq long)).eq_of_length long)
    exact congrArg (fun node => some node.value) kept

theorem required_moved :
    (reference.moved reference.owner).required = reference.owner.required := by
  unfold Node.required
  rw [reference.field?_owner (by decide)]

/-- Nodes of both documents that are at the same position, outside of the property, or that are a
node of the definition and the same node of its copy. -/
inductive Matches : Node → Node → Prop where
  | same {node : Node} (inside : Inside (Node.root document) node)
      (outside : ¬ reference.node.position <:+ node.position) :
      Matches node (reference.moved node)
  | copied {one two : Node} (path : List Nat) (inside : Inside (Node.root document) one)
      (original : one.position = path ++ reference.definition.position)
      (copy : two.position = path ++ reference.node.position) (same : one.value = two.value) :
      Matches one two

def Meets (one two : Node) : Prop :=
  reference.Matches one two ∨ one = reference.node ∧ two = reference.moved reference.node

structure Kept (one two : Node) : Prop where
  same : two = reference.moved one
  outside : ¬ reference.node.position <:+ one.position

theorem unnamed_moved : ¬ Shape.isNamedTarget (reference.moved reference.node) = true := by
  rw [(LooksLike.of_value reference.value_moved).isNamedTarget]
  exact reference.primitive

/-- Matching nodes, of which the second is on the way from the changed property. -/
structure Reached (one two : Node) : Prop where
  both : reference.Matches one two
  chain : Relation.ReflTransGen (Follows (Node.root reference.changed))
    (reference.moved reference.node) two

theorem isObject_of_position {node : Node} (inside : Inside (Node.root document) node)
    (here : node.position = reference.node.position) : node.value.isObject = true := by
  rw [inside.eq_of_position reference.inside here, reference.bare]
  rfl

variable {reference}

theorem Matches.inside {one two : Node} (both : reference.Matches one two) :
    Inside (Node.root document) one := by
  cases both with
  | same inside => exact inside
  | copied _ inside => exact inside

theorem Matches.looksLike {one two : Node} (both : reference.Matches one two)
    (object : reference.definition.value.isObject = true) : LooksLike one two := by
  cases both with
  | same inside outside =>
    exact looksLike_replace object outside fun key child member here =>
      reference.isObject_of_position (inside.field member) here
  | copied _ _ _ _ same => exact .of_value same

theorem outside_of_field {outer child : Node} {key : Text}
    (inside : Inside (Node.root document) outer)
    (outside : ¬ reference.node.position <:+ outer.position) (member : (key, child) ∈ outer.fields)
    (apart : child ≠ reference.node) : ¬ reference.node.position <:+ child.position := by
  intro deeper
  obtain ⟨index, -, place⟩ := mem_fields member
  rw [place, List.suffix_cons_iff, ← place] at deeper
  rcases deeper with here | above
  · exact apart ((inside.field member).eq_of_position reference.inside here.symm)
  · exact outside above

theorem Matches.exists_fields {one two : Node} (both : reference.Matches one two) :
    ∃ change : Node → Node,
      (two.fields = one.fields.map fun field => (field.1, change field.2)) ∧
      (∀ key child, (key, child) ∈ one.fields → reference.Meets child (change child)) ∧
      (reference.Kept one two → change = reference.moved) := by
  by_cases kept : reference.Kept one two
  · obtain ⟨rfl, outside⟩ := kept
    refine ⟨reference.moved, fields_replace outside, fun key child member => ?_, fun _ => rfl⟩
    by_cases own : child = reference.node
    · exact .inr ⟨own, congrArg reference.moved own⟩
    · exact .inl (.same (both.inside.field member)
        (outside_of_field both.inside outside member own))
  · cases both with
    | same inside outside => exact absurd ⟨rfl, outside⟩ kept
    | copied path inside original copy same =>
      refine ⟨two.under, fields_of_value same, fun key child member => ?_, fun also =>
        absurd also kept⟩
      obtain ⟨index, -, place⟩ := mem_fields member
      refine .inl (.copied (index :: path) (inside.field member) ?_ ?_ rfl)
      · exact place.trans (congrArg (index :: ·) original)
      · rw [under, place, copy]
        rfl

theorem Matches.exists_field? {one two child : Node} {key : Text}
    (both : reference.Matches one two) (found : one.field? key = some child) :
    ∃ also, two.field? key = some also ∧ reference.Meets child also ∧
      (reference.Kept one two → also = reference.moved child) := by
  obtain ⟨change, fields, meets, kept⟩ := both.exists_fields
  refine ⟨change child, ?_, meets key child (mem_fields_of_field? found), fun own => by
    rw [kept own]⟩
  rw [Node.field?, fields, lookup_map]
  exact congrArg (Option.map change) found

theorem Matches.field? {one two : Node} (both : reference.Matches one two) (key : Text) :
    Option.Rel reference.Meets (one.field? key) (two.field? key) := by
  obtain ⟨change, fields, meets, -⟩ := both.exists_fields
  rw [Node.field?, Node.field?, fields, lookup_map]
  cases found : one.fields.lookup key with
  | none => exact .none
  | some child => exact .some (meets key child (mem_fields_of_field? found))

theorem target?_changed (link : Text) :
    (Node.root reference.changed).target? link =
      ((Node.root document).target? link).map reference.moved := by
  rw [← reference.moved_root]
  exact target?_replace reference.deep link

theorem kept_target {link : Text} {target : Node}
    (found : (Node.root document).target? link = some target) (apart : target ≠ reference.node) :
    reference.Kept target (reference.moved target) := by
  have inside := inside_of_target? found
  refine ⟨rfl, fun deeper => apart (inside.eq_of_position reference.inside ?_)⟩
  -- A reference never gets deeper than the property is.
  refine (deeper.eq_of_length (Nat.le_antisymm deeper.length_le ?_)).symm
  rcases position_of_target? found with rfl | two
  · exact Nat.zero_le _
  · exact two ▸ reference.deep

theorem Kept.matches {one two : Node} (kept : reference.Kept one two)
    (inside : Inside (Node.root document) one) : reference.Matches one two := by
  obtain ⟨rfl, outside⟩ := kept
  exact .same inside outside

theorem matches_definition :
    reference.Matches reference.definition (reference.moved reference.node) :=
  .copied [] (inside_of_target? reference.found) rfl rfl reference.value_moved.symm

theorem Matches.isObject {one two : Node} (both : reference.Matches one two) :
    one.isObject = two.isObject := by
  cases both with
  | same _ outside => exact (isObject_replace outside).symm
  | copied _ _ _ _ same => rw [Node.isObject, Node.isObject, same]

theorem Matches.refersTo {one two target : Node} (both : reference.Matches one two)
    (object : reference.definition.value.isObject = true)
    (refers : RefersTo (Node.root document) one target) :
    RefersTo (Node.root reference.changed) two (reference.moved target) := by
  obtain ⟨link, own, found⟩ := refers
  refine ⟨link, (both.looksLike object).reference?.symm.trans own, ?_⟩
  rw [target?_changed, found, Option.map_some]

theorem Meets.isObject {one two : Node} (meets : reference.Meets one two)
    (object : reference.definition.value.isObject = true) : one.isObject = two.isObject := by
  rcases meets with both | ⟨rfl, rfl⟩
  · exact both.isObject
  · rw [Node.isObject, Node.isObject, reference.value_moved, object,
      reference.isObject_of_position reference.inside rfl]

section

variable (object : reference.definition.value.isObject = true)
  (noLoop : ¬ Relation.TransGen (Follows (Node.root reference.changed))
    (reference.moved reference.node) (reference.moved reference.node))

include object noLoop

theorem Reached.target {one two target : Node} {link : Text} (reached : reference.Reached one two)
    (refers : one.reference? = some link)
    (found : (Node.root document).target? link = some target) :
    RefersTo (Node.root reference.changed) two (reference.moved target) ∧
      reference.Matches target (reference.moved target) := by
  have goesOn := reached.both.refersTo object ⟨link, refers, found⟩
  have apart : target ≠ reference.node := by
    rintro rfl
    exact noLoop (.tail' reached.chain (goesOn.inlines reference.unnamed_moved).follows)
  exact ⟨goesOn, (kept_target found apart).matches (inside_of_target? found)⟩

theorem Reached.hasItems {one two items : Node} (reached : reference.Reached one two)
    (array : HasItems one items) : ∃ also, HasItems two also ∧ reference.Matches items also := by
  have looks := reached.both.looksLike object
  obtain ⟨also, found, meets, -⟩ := reached.both.exists_field? array.found
  have arrayToo : HasItems two also := ⟨looks.reference?.symm.trans array.plain,
    looks.kind.symm.trans array.kind, found, (meets.isObject object).symm.trans array.schema⟩
  rcases meets with both | ⟨-, rfl⟩
  · exact ⟨also, arrayToo, both⟩
  · exact absurd (.tail' reached.chain arrayToo.follows) noLoop

omit noLoop in
theorem Reached.lacksItems {one two : Node} (reached : reference.Reached one two)
    (lacks : LacksItems one) : LacksItems two := by
  have looks := reached.both.looksLike object
  refine ⟨looks.reference?.symm.trans lacks.plain, looks.kind.symm.trans lacks.kind, ?_⟩
  intro also foundToo
  have meets := reached.both.field? "items".toList
  rw [Option.mem_def.mp foundToo] at meets
  generalize found : one.field? "items".toList = first at meets
  cases meets with
  | some meets => exact meets.isObject object ▸ lacks.missing _ found

theorem alike_of (steps : Nat) (name : Text) {one two : Node}
    (reached : reference.Reached one two) :
    Shape.Alike reference.Matches (.of (Node.root document) steps name one)
      (.of (Node.root reference.changed) steps name two) := by
  induction steps generalizing one two name with
  | zero => exact .scalar .object
  | succ steps ih =>
    have looks := reached.both.looksLike object
    have step := Shape.step_of (Node.root document) steps name one
    generalize Shape.of (Node.root document) (steps + 1) name one = shape at step ⊢
    cases step with
    | inlined inlines =>
      obtain ⟨link, refers, found⟩ := inlines.refers
      obtain ⟨goesOn, both⟩ := reached.target object noLoop refers found
      have also := goesOn.inlines ((both.looksLike object).isNamedTarget ▸ inlines.unnamed)
      rw [Shape.of_inlines steps name also]
      exact ih name ⟨both, reached.chain.tail also.follows⟩
    | named refers found named =>
      obtain ⟨-, both⟩ := reached.target object noLoop refers found
      have there := (target?_changed _).trans (congrArg (Option.map reference.moved) found)
      have same := (both.looksLike object).isNamedTarget
      rw [(Shape.Step.named (looks.reference?.symm.trans refers) there (same ▸ named)).eq_of]
      exact .reference _ both
    | unresolved refers missing asks =>
      have there := (target?_changed _).trans (congrArg (Option.map reference.moved) missing)
      rw [(Shape.Step.unresolved (looks.reference?.symm.trans refers) there asks).eq_of]
      exact .unresolved _
    | nameless refers missing asks =>
      have there := (target?_changed _).trans (congrArg (Option.map reference.moved) missing)
      rw [(Shape.Step.nameless (looks.reference?.symm.trans refers) there asks).eq_of]
      exact .scalar .object
    | scalar plain typed =>
      rw [Shape.of_scalar? steps name (looks.reference?.symm.trans plain)
        (looks.scalar?.symm.trans typed)]
      exact .scalar _
    | items array =>
      obtain ⟨others, also, both⟩ := reached.hasItems object noLoop array
      rw [Shape.of_hasItems steps name also]
      exact .list (ih _ ⟨both, reached.chain.tail also.follows⟩)
    | anyItems lacks =>
      rw [Shape.of_lacksItems steps name (reached.lacksItems object lacks)]
      exact .list (.scalar .object)
    | inPlace declares =>
      have also : DeclaresInPlace two := ⟨looks.reference?.symm.trans declares.plain,
        looks.kind ▸ declares.kind, looks.hasProperties.symm.trans declares.properties⟩
      rw [Shape.of_declaresInPlace steps name also]
      exact .inlineClass _ reached.both
    | untyped plain kind empty =>
      rw [(Shape.Step.untyped (looks.reference?.symm.trans plain) (looks.kind ▸ kind)
        (looks.hasProperties.symm.trans empty)).eq_of]
      exact .scalar .object

end

theorem shapeOf_eq : PropertyModel.shapeOf (Node.root document) (reference.key, reference.node) =
    .of (Node.root document) document.size (Naming.pascalCase reference.key)
      reference.definition :=
  Shape.of_inlines _ _ reference.inlines

theorem alike_shapeOf (noLoop : NoLoop (Node.root document))
    (still : NoLoop (Node.root reference.changed))
    (inside : Inside (Node.root reference.changed) (reference.moved reference.node)) :
    Shape.Alike reference.Matches
      (PropertyModel.shapeOf (Node.root document) (reference.key, reference.node))
      (PropertyModel.shapeOf (Node.root reference.changed)
        (reference.key, reference.moved reference.node)) := by
  obtain ⟨length, ending⟩ := noLoop.exists_endsAfter reference.inside
  obtain ⟨other, endingToo⟩ := still.exists_endsAfter inside
  -- The property takes one step more, to the definition.
  rw [PropertyModel.shapeOf, PropertyModel.shapeOf,
    Shape.ofProperty_eq _ ending reference.inside (show length < length + other + 1 + 1 by omega),
    Shape.ofProperty_eq _ endingToo inside (show other < length + other + 1 by omega),
    Shape.of_inlines _ _ reference.inlines]
  by_cases object : reference.definition.value.isObject = true
  · exact alike_of object (still _ inside) _ _ ⟨reference.matches_definition, .refl⟩
  · have untyped := kind_of_not_object object
    have untypedToo := (LooksLike.of_value reference.value_moved).kind.trans untyped
    rw [Shape.of_untyped reference.primitive untyped,
      Shape.of_untyped reference.unnamed_moved untypedToo]
    exact .scalar .object

end PrimitiveReference

end SchemaClasses.Schema
