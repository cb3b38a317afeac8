import SchemaClasses.Proofs.Schema.PropertyTypes

set_option autoImplicit false

namespace SchemaClasses.Schema

namespace Shape

inductive Alike (related : Node → Node → Prop) : Shape → Shape → Prop where
  | scalar (type : Scalar) : Alike related (.scalar type) (.scalar type)
  | list {one two : Shape} (items : Alike related one two) : Alike related (.list one) (.list two)
  | inlineClass {one two : Node} (base : Text) (same : related one two) :
      Alike related (.inlineClass base one) (.inlineClass base two)
  | reference {one two : Node} (base : Text) (same : related one two) :
      Alike related (.reference base one) (.reference base two)
  | unresolved (className : Text) : Alike related (.unresolved className) (.unresolved className)

end Shape

inductive TypeName.Renamed (related : Text → Text → Prop) : TypeName → TypeName → Prop where
  | scalar (type : Scalar) : Renamed related (.scalar type) (.scalar type)
  | nullable (type : Scalar) : Renamed related (.nullable type) (.nullable type)
  | named {one two : Text} (same : related one two) : Renamed related (.named one) (.named two)
  | list {one two : TypeName} (items : Renamed related one two) :
      Renamed related (.list one) (.list two)

theorem TypeName.Renamed.refl {related : Text → Text → Prop} (same : ∀ name, related name name)
    (type : TypeName) : type.Renamed related type := by
  induction type with
  | scalar type => exact .scalar type
  | nullable type => exact .nullable type
  | named className => exact .named (same className)
  | list item ih => exact .list ih

inductive Initializer.Renamed (related : Text → Text → Prop) :
    Initializer → Initializer → Prop where
  | literal (text : Text) : Renamed related (.literal text) (.literal text)
  | construct {one two : Text} (same : related one two) :
      Renamed related (.construct one) (.construct two)
  | collection {one two : TypeName} (items : one.Renamed related two) :
      Renamed related (.collection one) (.collection two)

structure PropertyModel.Renamed (related : Text → Text → Prop) (one two : PropertyModel) :
    Prop where
  name : one.name = two.name
  required : one.required = two.required
  type : one.type.Renamed related two.type
  initializer : Option.Rel (Initializer.Renamed related) one.initializer? two.initializer?

namespace Shape.Alike

variable {matching : Node → Node → Prop} {related : Text → Text → Prop}
  {names otherNames : ClassNames} {one two : Shape}

def NamesRelated (matching : Node → Node → Prop) (related : Text → Text → Prop)
    (names otherNames : ClassNames) (one two : Shape) : Prop :=
  ∀ first second, one.namedNode? = some first → two.namedNode? = some second →
    matching first second → related (names.nameFor first) (otherNames.nameFor second)

theorem type (alike : Alike matching one two) (owner other : Node)
    (same : ∀ name, related name name)
    (agree : NamesRelated matching related names otherNames one two) :
    TypeName.Renamed related (one.resolved names owner).type
      (two.resolved otherNames other).type := by
  induction alike with
  | scalar type => exact .scalar type
  | list items ih => exact .list (ih agree)
  | inlineClass base matched => exact .named (agree _ _ rfl rfl matched)
  | reference base matched =>
    rw [type_reference, type_reference]
    exact .named (agree _ _ rfl rfl matched)
  | unresolved className => exact .named (same className)

end Shape.Alike

theorem PropertyModel.renamed_of_alike {matching : Node → Node → Prop}
    {related : Text → Text → Prop} {names otherNames : ClassNames} {one two : Shape}
    (alike : one.Alike matching two)
    (plain : (∃ type, one = .scalar type) ∨ ∃ item, one = .list item) (owner other : Node)
    (same : ∀ name, related name name)
    (agree : Shape.Alike.NamesRelated matching related names otherNames one two)
    (key : Text) (required : Bool) {node copy : Node}
    (noDefault : (node.value.field? "default".toList).bind literal? = none)
    (noDefaultToo : (copy.value.field? "default".toList).bind literal? = none) :
    (of key node required (one.resolved names owner)).Renamed related
      (of key copy required (two.resolved otherNames other)) := by
  rw [PropertyModel.of, PropertyModel.of, noDefault, noDefaultToo]
  rcases plain with ⟨type, rfl⟩ | ⟨item, rfl⟩
  · cases alike
    exact ⟨rfl, rfl, .refl same _, .none⟩
  · cases alike with
    | list items =>
      have itemTypes := items.type owner other same agree
      exact ⟨rfl, rfl, .list itemTypes, .some (.collection itemTypes)⟩

end SchemaClasses.Schema
