import Mathlib.Data.List.Forall2
import SchemaClasses.Proofs.Schema.ClassNodes

set_option autoImplicit false

namespace SchemaClasses

namespace Json.Value

def replaceAt : Value → List Nat → Value → Value
  | _, [], new => new
  | .object fields, index :: path, new =>
    .object (fields.modify index fun field => (field.1, field.2.replaceAt path new))
  | value, _ :: _, _ => value

theorem fields_replaceAt (value new : Value) (index : Nat) (path : List Nat) :
    (value.replaceAt (index :: path) new).fields =
      value.fields.modify index fun field => (field.1, field.2.replaceAt path new) := by
  cases value with
  | object fields => rfl
  | null | bool | number | string | array => simp [replaceAt, fields]

theorem isObject_replaceAt (value new : Value) (index : Nat) (path : List Nat) :
    (value.replaceAt (index :: path) new).isObject = value.isObject := by
  cases value <;> rfl

/-- The same, as far as the text of a value and its being an object are concerned. -/
def Agree (one two : Value) : Prop := one = two ∨ one.isObject = true ∧ two.isObject = true

theorem agree_replaceAt (value new : Value) (index : Nat) (path : List Nat) :
    value.Agree (value.replaceAt (index :: path) new) := by
  cases value with
  | object fields => exact .inr ⟨rfl, rfl⟩
  | null | bool | number | string | array => exact .inl rfl

variable {one two : Value}

theorem Agree.isObject (agree : one.Agree two) : one.isObject = two.isObject := by
  rcases agree with rfl | ⟨first, second⟩
  · rfl
  · rw [first, second]

theorem eq_object_of_isObject (object : one.isObject = true) : ∃ fields, one = .object fields := by
  cases one with
  | object fields => exact ⟨fields, rfl⟩
  | null | bool | number | string | array => contradiction

theorem Agree.string? (agree : one.Agree two) : one.string? = two.string? := by
  rcases agree with rfl | ⟨first, second⟩
  · rfl
  · obtain ⟨fields, rfl⟩ := eq_object_of_isObject first
    obtain ⟨others, rfl⟩ := eq_object_of_isObject second
    rfl

end Json.Value

namespace Schema.Node

theorem getElem?_fieldsFrom (position : List Nat) (first index : Nat)
    (fields : List (Text × Json.Value)) :
    (fieldsFrom position first fields)[index]? =
      fields[index]?.map fun field => (field.1, ⟨(first + index) :: position, field.2⟩) := by
  induction fields generalizing first index with
  | nil => rfl
  | cons field rest ih =>
    cases index with
    | zero => rfl
    | succ index =>
      rw [fieldsFrom, List.getElem?_cons_succ, List.getElem?_cons_succ, ih, Nat.add_right_comm,
        Nat.add_assoc]

theorem getElem?_fields (node : Node) (index : Nat) :
    node.fields[index]? =
      node.value.fields[index]?.map fun field => (field.1, ⟨index :: node.position, field.2⟩) := by
  rw [fields, getElem?_fieldsFrom, Nat.zero_add]

def replace (place : List Nat) (new : Json.Value) (node : Node) : Node :=
  { position := node.position
    value := match node.position.isSuffixOf? place with
      | some path => node.value.replaceAt path.reverse new
      | none => node.value }

variable {place path : List Nat} {new : Json.Value} {node : Node}

theorem value_replace (above : path ++ node.position = place) :
    (node.replace place new).value = node.value.replaceAt path.reverse new := by
  rw [replace, List.isSuffixOf?_eq_some_iff_append_eq.mpr above]

theorem replace_of_not_above (away : ¬ node.position <:+ place) :
    node.replace place new = node := by
  have none : node.position.isSuffixOf? place = none := by
    by_contra some
    obtain ⟨path, found⟩ := Option.ne_none_iff_exists'.mp some
    exact away ⟨path, List.isSuffixOf?_eq_some_iff_append_eq.mp found⟩
  rw [replace, none]

theorem replace_root (document : Json.Value) (place : List Nat) (new : Json.Value) :
    (root document).replace place new = root (document.replaceAt place.reverse new) := by
  have above : place ++ (root document).position = place := List.append_nil place
  have value : ((root document).replace place new).value = document.replaceAt place.reverse new :=
    value_replace above
  rw [root, ← value]
  rfl

theorem replace_field {next index : Nat} {position : List Nat} (value : Json.Value)
    (above : path ++ next :: position = place) :
    (⟨index :: position, value⟩ : Node).replace place new =
      ⟨index :: position, if next = index then value.replaceAt path.reverse new else value⟩ := by
  split
  · rename_i same
    have here : path ++ (⟨index :: position, value⟩ : Node).position = place := same ▸ above
    exact congrArg (Node.mk _) (value_replace here)
  · rename_i other
    refine replace_of_not_above fun beside => other ?_
    have both : next :: position <:+ place := ⟨path, above⟩
    have same := (List.suffix_of_suffix_length_le both beside (Nat.le_refl _)).eq_of_length rfl
    exact (List.cons.inj same).1

theorem fields_replace (outside : ¬ place <:+ node.position) :
    (node.replace place new).fields =
      node.fields.map fun field => (field.1, field.2.replace place new) := by
  refine List.ext_getElem? fun index => ?_
  rw [List.getElem?_map, getElem?_fields, getElem?_fields, Option.map_map]
  by_cases above : node.position <:+ place
  · obtain ⟨path, split⟩ := above
    obtain rfl | ⟨path, next, rfl⟩ := path.eq_nil_or_concat
    · exact absurd ⟨[], split.symm⟩ outside
    · rw [List.concat_eq_append] at split
      rw [value_replace split, List.reverse_append, List.reverse_singleton, List.singleton_append,
        Json.Value.fields_replaceAt, List.getElem?_modify]
      rw [List.append_assoc, List.singleton_append] at split
      cases node.value.fields[index]? with
      | none => rfl
      | some field =>
        simp only [Option.map_eq_map, Option.map_some, Function.comp_apply, replace_field _ split]
        split <;> rfl
  · have kept (field : Text × Json.Value) : replace place new ⟨index :: node.position, field.2⟩ =
        ⟨index :: node.position, field.2⟩ :=
      replace_of_not_above fun deeper => above ((List.suffix_cons _ _).trans deeper)
    rw [replace_of_not_above above]
    exact congrArg (Option.map · _) (funext fun field => by rw [Function.comp_apply, kept])

theorem lookup_map {α β : Type} (change : α → β) (key : Text) (fields : List (Text × α)) :
    (fields.map fun field => (field.1, change field.2)).lookup key =
      (fields.lookup key).map change := by
  induction fields with
  | nil => rfl
  | cons field rest ih =>
    rw [List.map_cons, List.lookup_cons, List.lookup_cons]
    split
    · rfl
    · exact ih

theorem field?_replace (outside : ¬ place <:+ node.position) (key : Text) :
    (node.replace place new).field? key = (node.field? key).map (replace place new) := by
  rw [field?, fields_replace outside, lookup_map, field?]

theorem outside_of_length (shallow : node.position.length < place.length) :
    ¬ place <:+ node.position := by
  intro deeper
  have := deeper.length_le
  omega

theorem isObject_replace (outside : ¬ place <:+ node.position) :
    (node.replace place new).isObject = node.isObject := by
  by_cases above : node.position <:+ place
  · obtain ⟨path, split⟩ := above
    obtain rfl | ⟨path, next, rfl⟩ := path.eq_nil_or_concat
    · exact absurd ⟨[], split.symm⟩ outside
    · rw [isObject, value_replace split, List.concat_eq_append, List.reverse_append]
      exact Json.Value.isObject_replaceAt ..
  · rw [replace_of_not_above above]

theorem target?_replace {document : Json.Value} (deep : 2 ≤ place.length) (link : Text) :
    ((root document).replace place new).target? link =
      ((root document).target? link).map (replace place new) := by
  have outside : ¬ place <:+ (root document).position :=
    outside_of_length (Nat.lt_of_lt_of_le Nat.zero_lt_two deep)
  unfold target?
  split
  · rfl
  · cases Text.dropStart? "#/".toList link with
    | none => rfl
    | some path =>
      cases split : Text.splitOnce? '/' path with
      | none => simp [split]
      | some parts =>
        simp only [split, Option.bind_eq_bind, Option.bind_some, field?_replace outside]
        cases found : (root document).field? parts.1 with
        | none => rfl
        | some group =>
          obtain ⟨index, -, position⟩ := mem_fields (mem_fields_of_field? found)
          exact field?_replace (outside_of_length (by rw [position]; exact deep)) _

theorem sectionFields_replace {document : Json.Value} (deep : 2 ≤ place.length) (key : Text) :
    Draft.sectionFields ((root document).replace place new) key =
      (Draft.sectionFields (root document) key).map fun field =>
        (field.1, field.2.replace place new) := by
  have outside : ¬ place <:+ (root document).position :=
    outside_of_length (Nat.lt_of_lt_of_le Nat.zero_lt_two deep)
  rw [Draft.sectionFields, Draft.sectionFields, field?_replace outside]
  cases found : (root document).field? key with
  | none => rfl
  | some group =>
    obtain ⟨index, -, position⟩ := mem_fields (mem_fields_of_field? found)
    exact fields_replace (outside_of_length (by rw [position]; exact deep))

theorem propertyFields_replace (outside : ¬ place <:+ node.position)
    (below : ∀ properties, node.field? "properties".toList = some properties →
      ¬ place <:+ properties.position) :
    (node.replace place new).propertyFields =
      node.propertyFields.map fun field => (field.1, field.2.replace place new) := by
  rw [propertyFields, propertyFields, properties?, properties?, field?_replace outside]
  cases found : node.field? "properties".toList with
  | none => rfl
  | some properties =>
    have object : (properties.replace place new).isObject = properties.isObject :=
      isObject_replace (below properties found)
    simp only [Option.map_some, object]
    cases properties.isObject with
    | false => rfl
    | true => exact fields_replace (below properties found)

def under (outer field : Node) : Node :=
  ⟨field.position.headD 0 :: outer.position, field.value⟩

theorem fields_of_value {one two : Node} (same : one.value = two.value) :
    two.fields = one.fields.map fun field => (field.1, two.under field.2) := by
  refine List.ext_getElem? fun index => ?_
  rw [List.getElem?_map, getElem?_fields, getElem?_fields, same, Option.map_map]
  rfl

theorem field?_value (node : Node) (key : Text) :
    node.value.field? key = (node.field? key).map Node.value := by
  have values (position : List Nat) (first : Nat) (fields : List (Text × Json.Value)) :
      (fieldsFrom position first fields).map (fun field => (field.1, field.2.value)) = fields := by
    induction fields generalizing first with
    | nil => rfl
    | cons field rest ih => rw [fieldsFrom, List.map_cons, ih]
  rw [field?, ← lookup_map, fields, values, Json.Value.field?]

theorem hasProperties_eq (node : Node) :
    node.hasProperties = (node.value.field? "properties".toList).any Json.Value.isObject := by
  rw [hasProperties, properties?, field?_value]
  cases node.field? "properties".toList with
  | none => rfl
  | some properties =>
    cases object : properties.value.isObject <;> simp [isObject, object]

theorem field?_of_not_object {node : Node} (plain : ¬ node.value.isObject = true) (key : Text) :
    node.value.field? key = none := by
  unfold Json.Value.field?
  cases value : node.value with
  | object fields => exact absurd (by rw [value]; rfl) plain
  | null | bool | number | string | array => rfl

theorem kind_of_not_object {node : Node} (plain : ¬ node.value.isObject = true) :
    node.kind = .unspecified := by
  rw [kind, field?_of_not_object plain]

theorem Mentions.isObject_value {root node target : Node} (mentions : Mentions root node target) :
    node.value.isObject = true := by
  by_contra plain
  have noReference : node.reference? = none := by
    rw [reference?, text?, field?_of_not_object plain, Option.bind_none]
  cases mentions with
  | inPlace declares =>
    have properties := declares.properties
    rw [hasProperties_eq, field?_of_not_object plain] at properties
    contradiction
  | reference refers => exact refers.not_plain noReference
  | follow step =>
    have kind := kind_of_not_object plain
    exact not_follows_of_plain noReference (by rw [kind]; decide) step

/-- Nodes that no keyword of a schema tells apart, if not by what is inside of an object. -/
def LooksLike (one two : Node) : Prop :=
  ∀ key, Option.Rel Json.Value.Agree (one.value.field? key) (two.value.field? key)

namespace LooksLike

variable {one two : Node}

theorem of_value (same : one.value = two.value) : LooksLike one two := by
  intro key
  rw [same]
  cases two.value.field? key with
  | none => exact .none
  | some value => exact .some (.inl rfl)

theorem read_eq {α : Type} (alike : LooksLike one two) (key : Text)
    (read : Option Json.Value → α)
    (same : ∀ first second : Json.Value, first.Agree second →
      read (some first) = read (some second)) :
    read (one.value.field? key) = read (two.value.field? key) := by
  have agree := alike key
  generalize one.value.field? key = first at agree
  generalize two.value.field? key = second at agree
  cases agree with
  | none => rfl
  | some agree => exact same _ _ agree

theorem text? (alike : LooksLike one two) (key : Text) : one.text? key = two.text? key :=
  alike.read_eq key (Option.bind · Json.Value.string?) fun _ _ agree => agree.string?

theorem reference? (alike : LooksLike one two) : one.reference? = two.reference? :=
  alike.text? "$ref".toList

theorem kind (alike : LooksLike one two) : one.kind = two.kind := by
  have agree := alike "type".toList
  unfold Node.kind
  generalize one.value.field? "type".toList = first at agree
  generalize two.value.field? "type".toList = second at agree
  cases agree with
  | none => rfl
  | some agree =>
    rcases agree with rfl | ⟨object, objectToo⟩
    · rfl
    · obtain ⟨fields, rfl⟩ := Json.Value.eq_object_of_isObject object
      obtain ⟨others, rfl⟩ := Json.Value.eq_object_of_isObject objectToo
      rfl

theorem scalar? (alike : LooksLike one two) : one.scalar? = two.scalar? := by
  rw [Node.scalar?, Node.scalar?, alike.kind, alike.text?]

theorem hasProperties (alike : LooksLike one two) : one.hasProperties = two.hasProperties := by
  rw [hasProperties_eq, hasProperties_eq]
  exact alike.read_eq _ (Option.any Json.Value.isObject) fun _ _ agree => agree.isObject

theorem isObjectSchema (alike : LooksLike one two) : one.isObjectSchema = two.isObjectSchema := by
  rw [Node.isObjectSchema, Node.isObjectSchema, alike.hasProperties, alike.kind]

theorem isNamedTarget (alike : LooksLike one two) :
    Shape.isNamedTarget one = Shape.isNamedTarget two := by
  have refers := alike.read_eq "$ref".toList Option.isSome fun _ _ _ => rfl
  rw [Shape.isNamedTarget, Shape.isNamedTarget, alike.isObjectSchema, refers]

end LooksLike

theorem agree_replace (object : new.isObject = true)
    (here : node.position = place → node.value.isObject = true) :
    node.value.Agree (node.replace place new).value := by
  by_cases above : node.position <:+ place
  · obtain ⟨path, split⟩ := above
    rw [value_replace split]
    obtain rfl | ⟨path, next, rfl⟩ := path.eq_nil_or_concat
    · exact .inr ⟨here split, object⟩
    · rw [List.concat_eq_append, List.reverse_append]
      exact Json.Value.agree_replaceAt ..
  · rw [replace_of_not_above above]
    exact .inl rfl

theorem looksLike_replace (object : new.isObject = true) (outside : ¬ place <:+ node.position)
    (here : ∀ key child, (key, child) ∈ node.fields → child.position = place →
      child.value.isObject = true) : LooksLike node (node.replace place new) := by
  intro key
  rw [field?_value, field?_value, field?_replace outside]
  cases found : node.field? key with
  | none => exact .none
  | some child => exact .some (agree_replace object (here key child (mem_fields_of_field? found)))

end Schema.Node

end SchemaClasses
