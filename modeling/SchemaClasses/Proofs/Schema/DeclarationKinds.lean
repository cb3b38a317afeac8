import SchemaClasses.Proofs.Schema.BackingFields
import SchemaClasses.Proofs.Schema.MentionedClasses
import SchemaClasses.Proofs.Schema.OneClassEach

set_option autoImplicit false

namespace SchemaClasses

namespace LineKind

open Text

variable {type name rest : Text}

theorem ofLine_declared_header {blanks : Text} (blank : ∀ c ∈ blanks, isBlank c = true)
    (typed : type.map foldCase = "partial".toList) (named : name.map foldCase = "class".toList)
    (single : '\n' ∉ rest) (last : ∀ c ∈ rest.getLast?, isBlank c = false) :
    ofLine (blanks ++ declared type name rest) = .classHeader ['\x7b'] := by
  have words : declared type name rest = ("public".toList ++ ' ' :: (type ++ ' ' :: name)) ++
      ' ' :: ("\x7b get; set; \x7d".toList ++ rest) := by
    have space : " \x7b get; set; \x7d".toList = ' ' :: "\x7b get; set; \x7d".toList := rfl
    unfold declared
    rw [space]
    generalize "public".toList = keyword
    generalize "\x7b get; set; \x7d".toList = accessors
    simp
  have folded : ("public".toList ++ ' ' :: (type ++ ' ' :: name)).map foldCase =
      "public partial class".toList := by
    rw [List.map_append, List.map_cons, List.map_append, List.map_cons, typed, named]
    decide
  have visible : ∀ c ∈ ("\x7b get; set; \x7d".toList ++ rest).head?, isBlank c = false := by
    intro c first
    obtain rfl := Option.some.inj first
    decide
  have oneLine : '\n' ∉ "\x7b get; set; \x7d".toList ++ rest :=
    List.not_mem_append (by decide) single
  have header : headerName? (declared type name rest) = some ['\x7b'] := by
    have dropped := dropStartFolded?_append folded (' ' :: ("\x7b get; set; \x7d".toList ++ rest))
    rw [words, headerName?, dropped]
    simp only [indentOf_space visible, trimStart_space visible, oneLine, List.cons_ne_nil, or_self,
      if_false]
    rfl
  rw [ofLine, trim_declared blank last, ofTrimmed, header]
  rfl

end LineKind

namespace Schema

open Node LineKind Text

namespace PropertyModel

/-- The type is `partial` and the name is `class`, in any case of letters. -/
def ReadsAsHeader (property : PropertyModel) : Prop :=
  property.type.render.map foldCase = "partial".toList ∧
    property.name.map foldCase = "class".toList

theorem typeFor_eq {resolved : Resolved} (noScalar : ∀ type, resolved.type ≠ .scalar type)
    (required : Bool) (initializer? : Option Initializer) :
    typeFor resolved required initializer? = resolved.type := by
  unfold typeFor
  split
  · rename_i type scalar
    exact absurd scalar (noScalar type)
  · rfl

theorem newline_notMem_initializer {names : ClassNames} {root owner : Node} {field : Text × Node}
    {initializer : Initializer} (given : (ofField names root owner field).initializer? = some initializer)
    (single : '\n' ∉ (ofField names root owner field).type.render) : '\n' ∉ initializer.render := by
  rw [ofField, initializer?_of, Option.or_eq_some_iff] at given
  rcases given with default | ⟨-, own⟩
  · obtain ⟨text, found, rfl⟩ := Option.map_eq_some_iff.mp default
    obtain ⟨value, -, literal⟩ := Option.bind_eq_some_iff.mp found
    exact newline_notMem_literal? literal
  · have type (noScalar : ∀ type, ((shapeOf root field).resolved names owner).type ≠ .scalar type) :
        (ofField names root owner field).type = ((shapeOf root field).resolved names owner).type :=
      typeFor_eq noScalar _ _
    rcases Shape.initializer_resolved own with ⟨className, same, rfl⟩ | ⟨item, same, rfl⟩
    · rw [type (by simp [same]), same] at single
      exact List.not_mem_append (List.not_mem_append (by decide) single) (by decide)
    · rw [type (by simp [same]), same] at single
      have inner : '\n' ∉ item.render := fun member =>
        single (List.mem_append_left _ (List.mem_append_right _ member))
      exact List.not_mem_append (List.not_mem_append (by decide) inner) (by decide)

variable {names : ClassNames} {root owner : Node} {field : Text × Node}

theorem ofLine_declaration_iff (named : (ofField names root owner field).name ≠ [])
    (typed : (ofField names root owner field).type.render ≠ [])
    (word : ∀ c ∈ (ofField names root owner field).type.render, isBlank c = false) :
    let property := ofField names root owner field
    (ofLine property.declaration = .member property.name .property ↔ ¬ property.ReadsAsHeader) ∧
    (property.ReadsAsHeader → ofLine property.declaration = .classHeader ['\x7b']) := by
  intro property
  have plain : Text.Plain property.name := Naming.plain_pascalCase field.1
  have start : ∀ c ∈ property.name.head?, isWordStart c = true :=
    Naming.isWordStart_pascalCase field.1
  have single : '\n' ∉ property.afterAccessors :=
    newline_notMem_afterAccessors fun _ given =>
      newline_notMem_initializer given (newline_notMem_of_visible word)
  have last := property.visible_getLast?_afterAccessors
  have header (reads : property.ReadsAsHeader) :
      ofLine property.declaration = .classHeader ['\x7b'] := by
    rw [property.declaration_eq]
    exact ofLine_declared_header isBlank_of_mem_indent reads.1 reads.2 single last
  refine ⟨⟨fun kind reads => ?_, fun reads => ?_⟩, header⟩
  · rw [header reads] at kind
    cases kind
  · rw [property.declaration_eq]
    exact ofLine_declared isBlank_of_mem_indent typed word start named plain reads single last

end PropertyModel

theorem declarations_recognized_iff (document : Json.Value) (rootName namespaceName : Text)
    (object : document.isObject = true) :
    let models := classes document rootName
    generate document namespaceName rootName =
      .ok (joinWith '\n' (sourceLines namespaceName models)) ∧
    (∀ path, Schema.rootName document path = rootName →
      ∀ model ∈ models, ∀ property ∈ model.properties, ∀ c ∈ property.type.render, isBlank c = false) ∧
    ∀ model ∈ models, ∀ property ∈ model.properties,
      property.declaration ∈ sourceLines namespaceName models ∧
      (property.name ≠ [] → property.type.render ≠ [] →
        (∀ c ∈ property.type.render, isBlank c = false) →
        (ofLine property.declaration = .member property.name .property ↔
          ¬ property.ReadsAsHeader) ∧
        (property.ReadsAsHeader → ofLine property.declaration = .classHeader ['\x7b'])) := by
  intro models
  refine ⟨if_pos object, ?_, fun model listed property member =>
    ⟨declaration_mem_sourceLines listed member namespaceName, ?_⟩⟩
  · rintro path rfl model listed property member
    have plain := plain_classes (plain_rootName document path) document model listed
    exact TypeName.visible_of_mem_render (plain.properties property member).type
  · obtain ⟨names, owner, field, rfl⟩ := exists_ofField listed member
    exact PropertyModel.ofLine_declaration_iff

def reserved : Json.Value :=
  .object [
    ("properties".toList, .object [
      ("class".toList, .object [("$ref".toList, .string "#/definitions/partial".toList)]),
      ("part".toList, .object [("$ref".toList, .string "#/definitions/partial".toList)])]),
    ("definitions".toList, .object [
      ("partial".toList, .object [
        ("properties".toList, .object [
          ("class".toList, .object [("type".toList, .string "boolean".toList)])])])])]

def reservedPath : Path := ⟨"reserved.json".toList⟩

def part : PropertyModel where
  jsonName := "part".toList
  name := "Part".toList
  type := .named "Partial".toList
  initializer? := some (.construct "Partial".toList)
  required := false
  description? := none

instance (property : PropertyModel) : Decidable property.ReadsAsHeader :=
  inferInstanceAs (Decidable (_ ∧ _))

theorem part_recognized : reserved.isObject = true ∧
    ∃ model ∈ classes reserved (rootName reserved reservedPath), part ∈ model.properties ∧
      part.name ≠ [] ∧ part.type.render ≠ [] ∧
      ofLine part.declaration = .member "Part".toList .property := by
  obtain ⟨model, listed, member⟩ :
      ∃ model ∈ classes reserved (rootName reserved reservedPath), part ∈ model.properties := by
    decide +kernel
  have named : part.name ≠ [] := by decide
  have typed : part.type.render ≠ [] := by decide
  obtain ⟨-, words, recognized⟩ :=
    declarations_recognized_iff reserved (rootName reserved reservedPath) "Gen".toList rfl
  have word := words reservedPath rfl model listed part member
  exact ⟨rfl, model, listed, member, named, typed,
    ((recognized model listed part member).2 named typed word).1.mpr (by decide)⟩

theorem declaration_taken_for_header :
    let models := classes reserved (rootName reserved reservedPath)
    reserved.isObject = true ∧ NoLoop (Node.root reserved) ∧
    generate reserved "Gen".toList (rootName reserved reservedPath) =
      .ok (joinWith '\n' (sourceLines "Gen".toList models)) ∧
    ∃ model ∈ models, ∃ property ∈ model.properties,
      property.declaration = "        public Partial Class \x7b get; set; \x7d = new Partial();".toList ∧
      property.declaration ∈ sourceLines "Gen".toList models ∧
      property.name = "Class".toList ∧ property.type.render = "Partial".toList ∧
      ofLine property.declaration = .classHeader ['\x7b'] ∧
      ofLine property.declaration ≠ .member property.name .property := by
  intro models
  refine ⟨rfl, noLoop_of_endsWithin 3 (by decide), rfl, ?_⟩
  decide +kernel

end Schema

end SchemaClasses
