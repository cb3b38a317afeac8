import SchemaClasses.Proofs.Schema.BackingFields
import SchemaClasses.Proofs.Schema.MentionedClasses
import SchemaClasses.Proofs.Source.ExpandedLines
import SchemaClasses.Proofs.Source.WrittenShorthand

set_option autoImplicit false

namespace SchemaClasses

namespace Text

theorem framed_append {front back : Text} (first last : Char) (starts : front.head? = some first)
    (ends : back.getLast? = some last) (visible : isBlank first = false)
    (solid : isBlank last = false ∧ last ≠ ';') (s : Text) : Framed (front ++ s ++ back) := by
  refine ⟨⟨first, ?_, visible⟩, ⟨last, ?_, solid⟩⟩
  · rw [List.append_assoc, List.head?_append, starts, Option.some_or]
  · rw [List.getLast?_append, ends, Option.some_or]

theorem framed_of_all {s : Text} (nonempty : s ≠ [])
    (solid : ∀ c ∈ s, isBlank c = false ∧ c ≠ ';') : Framed s := by
  obtain ⟨first, starts⟩ := Option.ne_none_iff_exists'.mp (mt List.head?_eq_none_iff.mp nonempty)
  obtain ⟨last, ends⟩ := Option.ne_none_iff_exists'.mp (mt List.getLast?_eq_none_iff.mp nonempty)
  exact ⟨⟨first, starts, (solid first (List.mem_of_head? starts)).1⟩,
    ⟨last, ends, solid last (List.mem_of_getLast? ends)⟩⟩

set_option maxRecDepth 4000 in
theorem solid_of_isNumberSign {c : Char} (sign : isNumberSign c = true) :
    isBlank c = false ∧ c ≠ ';' := by
  have ascii : c.toNat < 128 := by
    simp only [isNumberSign, Bool.or_eq_true, beq_iff_eq] at sign
    rcases sign with (((digit | rfl) | rfl) | rfl) | rfl
    · exact ascii_of_isAlphanum (by simp [Char.isAlphanum, digit])
    all_goals decide
  exact forall_ascii (P := fun c => isNumberSign c = true → isBlank c = false ∧ c ≠ ';') (by decide)
    ascii sign

end Text

namespace Schema

open Node Shorthand Text

namespace TypeName

def NeverNull : TypeName → Prop
  | .scalar _ | .named _ => True
  | .nullable _ => False
  | .list item => item.NeverNull

theorem mark_notMem_render {type : TypeName} (plain : type.Plain) (neverNull : type.NeverNull) :
    '?' ∉ type.render := by
  induction type with
  | scalar type => cases type <;> decide
  | nullable type => exact neverNull.elim
  | named className => exact fun member => absurd (plain _ member) (by decide)
  | list item ih =>
    have inner := ih plain neverNull
    exact List.not_mem_append (List.not_mem_append (by decide) inner) (by decide)

theorem run_render {type : TypeName} (plain : type.Plain) (neverNull : type.NeverNull)
    (typed : type.render ≠ []) : Run isTypePart type.render := by
  refine ⟨typed, fun c member => isTypePart_of_isTypeSign (isTypeSign_of_mem_render plain c member) ?_⟩
  rintro rfl
  exact mark_notMem_render plain neverNull member

end TypeName

namespace Initializer

theorem framed_construct (className : Text) : Framed (construct className).render :=
  framed_append 'n' ')' rfl rfl rfl (by decide) className

theorem framed_collection (item : TypeName) : Framed (collection item).render :=
  framed_append 'n' ')' rfl rfl rfl (by decide) item.render

theorem framed_literal? {value : Json.Value} {text : Text} (found : literal? value = some text) :
    Framed text := by
  unfold literal? at found
  split at found <;> cases found
  · exact framed_append '"' '"' (rfl : ['"'].head? = _) rfl rfl (by decide) _
  · exact framed_of_all (Json.Number.render_ne_nil _) fun c member =>
      solid_of_isNumberSign (Json.Number.isNumberSign_of_mem_render c member)
  · exact ⟨⟨'t', rfl, rfl⟩, ⟨'e', rfl, by decide⟩⟩
  · exact ⟨⟨'f', rfl, rfl⟩, ⟨'e', rfl, by decide⟩⟩

end Initializer

namespace Shape

theorem neverNull_resolved (names : ClassNames) (owner : Node) (shape : Shape) :
    (shape.resolved names owner).type.NeverNull := by
  induction shape with
  | list item ih => exact ih
  | reference base target =>
    rw [resolved, Resolved.ofReference]
    split <;> trivial
  | scalar | inlineClass | unresolved => trivial

theorem framed_resolved {names : ClassNames} {owner : Node} {shape : Shape} {initializer : Initializer}
    (own : (shape.resolved names owner).initializer? = some initializer) :
    Framed initializer.render := by
  rcases initializer_resolved own with ⟨className, -, rfl⟩ | ⟨item, -, rfl⟩
  · exact Initializer.framed_construct className
  · exact Initializer.framed_collection item

end Shape

namespace PropertyModel

structure Expandable (property : PropertyModel) : Prop where
  neverNull : property.initializer?.isSome → property.type.NeverNull
  framed : ∀ initializer, property.initializer? = some initializer → Framed initializer.render

theorem neverNull_typeFor {resolved : Resolved} {required : Bool} {initializer? : Option Initializer}
    (neverNull : resolved.type.NeverNull) (initialized : initializer?.isSome) :
    (typeFor resolved required initializer?).NeverNull := by
  obtain ⟨initializer, rfl⟩ := Option.isSome_iff_exists.mp initialized
  unfold typeFor
  split
  · rename_i type same
    simp [TypeName.NeverNull]
  · exact neverNull

theorem expandable_ofField (names : ClassNames) (root owner : Node) (field : Text × Node) :
    (ofField names root owner field).Expandable where
  neverNull := neverNull_typeFor (Shape.neverNull_resolved names owner _)
  framed := by
    intro initializer given
    rw [ofField, initializer?_of, Option.or_eq_some_iff] at given
    rcases given with default | ⟨-, own⟩
    · obtain ⟨text, found, rfl⟩ := Option.map_eq_some_iff.mp default
      obtain ⟨value, -, literal⟩ := Option.bind_eq_some_iff.mp found
      exact Initializer.framed_literal? literal
    · exact Shape.framed_resolved own

variable {property : PropertyModel}

theorem run_name (plain : property.Plain) (named : property.name ≠ []) :
    Run isTypePart property.name :=
  ⟨named, fun c member =>
    isTypePart_of_isWordPart (isWordPart_of_isPlain (plain_name plain c member))⟩

theorem declaration_eq_written {initializer : Initializer}
    (given : property.initializer? = some initializer) : property.declaration =
      indent 2 ++ written "public".toList property.type.render property.name initializer.render ++ [] := by
  have after : property.afterAccessors = ' ' :: '=' :: (' ' :: initializer.render ++ [';']) := by
    simp [afterAccessors, given]
  rw [declaration_eq, after, List.append_nil]
  rfl

theorem run_public : Run isLetter "public".toList :=
  ⟨by decide, List.all_eq_true.mp (by decide)⟩

theorem isConvertible_declaration (plain : property.Plain) (expandable : property.Expandable)
    (named : property.name ≠ []) (typed : property.type.render ≠ []) :
    isConvertible property.declaration = true ↔ property.initializer?.isSome := by
  cases given : property.initializer? with
  | none =>
    have ended : ['\x7d'] <:+ property.declaration := by
      rw [declaration, given]
      exact List.IsSuffix.trans (by decide) (List.suffix_append _ " \x7b get; set; \x7d".toList)
    simp [not_convertible_of_last (by decide) (by decide) ended]
  | some initializer =>
    have neverNull := expandable.neverNull (by rw [given]; rfl)
    have single := Initializer.newline_notMem_render (plain.initializer initializer given)
    refine iff_of_true ?_ rfl
    rw [declaration_eq_written given]
    exact isConvertible_written run_public (TypeName.run_render plain.type neverNull typed)
      (run_name plain named) isBlank_of_mem_indent (List.forall_mem_nil _) single

theorem parse?_declaration (plain : property.Plain) (expandable : property.Expandable)
    (named : property.name ≠ []) (typed : property.type.render ≠ []) {initializer : Initializer}
    (given : property.initializer? = some initializer) :
    parse? property.declaration = some
      { modifier := "public".toList
        typeName := property.type.render
        name := property.name
        default := initializer.render
        indent := ['\t', '\t'] } := by
  have neverNull := expandable.neverNull (by rw [given]; rfl)
  have single := Initializer.newline_notMem_render (plain.initializer initializer given)
  have tabs : replaceAll "    ".toList ['\t'] (indent 2) = ['\t', '\t'] := by decide
  rw [declaration_eq_written given, parse?_written run_public
    (TypeName.run_render plain.type neverNull typed) (run_name plain named) isBlank_of_mem_indent
    (List.forall_mem_nil _) (expandable.framed initializer given) single, tabs]

end PropertyModel

theorem expandable_of_mem_classes {document : Json.Value} {rootName : Text} {model : ClassModel}
    {property : PropertyModel} (listed : model ∈ classes document rootName)
    (member : property ∈ model.properties) : property.Expandable := by
  obtain ⟨names, owner, field, rfl⟩ := exists_ofField listed member
  exact PropertyModel.expandable_ofField names _ owner field

theorem initialized_properties_read_back (document : Json.Value) (path : Path)
    (namespaceName : Text) (object : document.isObject = true) :
    let models := classes document (rootName document path)
    generate document namespaceName (rootName document path) =
      .ok (joinWith '\n' (sourceLines namespaceName models)) ∧
    ∀ model ∈ models, ∀ property ∈ model.properties,
      property.declaration ∈ sourceLines namespaceName models ∧
      (property.name ≠ [] → property.type.render ≠ [] →
        (isConvertible property.declaration = true ↔ property.initializer?.isSome) ∧
        ∀ initializer, property.initializer? = some initializer →
          parse? property.declaration = some
            { modifier := "public".toList
              typeName := property.type.render
              name := property.name
              default := initializer.render
              indent := ['\t', '\t'] }) := by
  intro models
  refine ⟨if_pos object, fun model listed property member =>
    ⟨declaration_mem_sourceLines listed member namespaceName, fun named typed => ?_⟩⟩
  have plain := (plain_classes (plain_rootName document path) document model listed).properties
    property member
  have expandable := expandable_of_mem_classes listed member
  exact ⟨PropertyModel.isConvertible_declaration plain expandable named typed,
    fun initializer given => PropertyModel.parse?_declaration plain expandable named typed given⟩

def mottos : Json.Value :=
  .object [
    ("properties".toList, .object [
      ("motto".toList, .object [
        ("type".toList, .string "string".toList),
        ("default".toList, .string "; a = \"b\\\"; \r\n;".toList)]),
      ("lines".toList, .object [
        ("type".toList, .string "array".toList),
        ("items".toList, .object [
          ("type".toList, .string "array".toList),
          ("items".toList, .object [("type".toList, .string "integer".toList)])])]),
      ("author".toList, .object [("properties".toList, .object [])]),
      ("year".toList, .object [("type".toList, .string "integer".toList)])])]

def mottosPath : Path := ⟨"mottos.json".toList⟩

def motto : PropertyModel where
  jsonName := "motto".toList
  name := "Motto".toList
  type := .scalar .string
  initializer? := some (.literal "\"; a = \\\"b\\\\\\\"; \\r\\n;\"".toList)
  required := false
  description? := none

theorem motto_reads_back : mottos.isObject = true ∧
    ∃ model ∈ classes mottos (rootName mottos mottosPath), motto ∈ model.properties ∧
      motto.name ≠ [] ∧ motto.type.render ≠ [] ∧
      parse? motto.declaration = some
        { modifier := "public".toList
          typeName := "string".toList
          name := "Motto".toList
          default := "\"; a = \\\"b\\\\\\\"; \\r\\n;\"".toList
          indent := ['\t', '\t'] } := by
  obtain ⟨model, listed, member⟩ :
      ∃ model ∈ classes mottos (rootName mottos mottosPath), motto ∈ model.properties := by
    decide +kernel
  have named : motto.name ≠ [] := by decide
  have typed : motto.type.render ≠ [] := by decide
  have facts := (initialized_properties_read_back mottos mottosPath "Gen".toList rfl).2
    model listed motto member
  exact ⟨rfl, model, listed, member, named, typed, (facts.2 named typed).2 _ rfl⟩

end Schema

end SchemaClasses
