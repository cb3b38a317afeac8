import SchemaClasses.Proofs.Schema.ClassNames
import SchemaClasses.Proofs.Schema.Shapes
import SchemaClasses.Schema.Classes

set_option autoImplicit false

namespace SchemaClasses.Schema

def ClassNames.nameFor (names : ClassNames) (node : Node) : Text := (names.nameOf? node).getD []

theorem ClassNames.nameFor_eq {names : ClassNames} {node : Node} {name : Text}
    (found : names.nameOf? node = some name) : names.nameFor node = name := by
  rw [nameFor, found, Option.getD_some]

def Shape.resolved (names : ClassNames) (owner : Node) : Shape → Resolved
  | .scalar type => ⟨.scalar type, none⟩
  | .list item => (item.resolved names owner).listOf
  | .inlineClass _ node => .ofClass (names.nameFor node)
  | .reference _ target => .ofReference owner target (names.nameFor target)
  | .unresolved className => .ofClass className

theorem Shape.initializer_resolved {names : ClassNames} {owner : Node} {shape : Shape}
    {initializer : Initializer}
    (own : (shape.resolved names owner).initializer? = some initializer) :
    (∃ className, (shape.resolved names owner).type = .named className ∧
      initializer = .construct className) ∨
    ∃ item, (shape.resolved names owner).type = .list item ∧ initializer = .collection item := by
  cases shape with
  | scalar => cases own
  | list item =>
    cases own
    exact .inr ⟨_, rfl, rfl⟩
  | inlineClass | unresolved =>
    cases own
    exact .inl ⟨_, rfl, rfl⟩
  | reference base target =>
    rw [resolved, Resolved.ofReference] at own ⊢
    split at own <;> cases own
    rename_i other
    exact .inl ⟨_, by rw [if_neg other]; rfl, rfl⟩

def PropertyModel.shapeOf (root : Node) (field : Text × Node) : Shape :=
  .ofProperty root (Naming.pascalCase field.1) field.2

def PropertyModel.ofField (names : ClassNames) (root owner : Node) (field : Text × Node) :
    PropertyModel :=
  .of field.1 field.2 (owner.required.contains field.1) ((shapeOf root field).resolved names owner)

def ClassModel.ofNode (names : ClassNames) (root node : Node) : ClassModel :=
  { name := names.nameFor node
    description? := node.description?
    properties := node.propertyFields.map (PropertyModel.ofField names root node) }

namespace Draft

theorem grants_resolve (draft : Draft) (owner : Node) (shape : Shape) :
    ClassNames.Grants (fun base node => shape.request? = some (base, node)) draft.names
      (draft.resolve owner shape).2.names := by
  induction shape with
  | scalar | unresolved => exact .refl
  | list item ih => exact ih
  | inlineClass base node | reference base node => exact .one rfl

theorem resolve_eq {draft : Draft} {owner : Node} {shape : Shape} {later : ClassNames}
    (more : (draft.resolve owner shape).2.names.Extends later) :
    (draft.resolve owner shape).1 = shape.resolved later owner := by
  induction shape with
  | scalar | unresolved => rfl
  | list item ih =>
    have same := ih more
    rw [Shape.resolved, ← same]
    rfl
  | inlineClass base node | reference base node =>
    have named := more _ _ (ClassNames.nameOf?_reserve draft.names base node)
    rw [Shape.resolved, ClassNames.nameFor_eq named]
    rfl

theorem named_of_resolve {draft : Draft} {owner node : Node} {shape : Shape}
    (stands : shape.namedNode? = some node) :
    ((draft.resolve owner shape).2.names.nameOf? node).isSome := by
  induction shape with
  | scalar | unresolved => contradiction
  | list item ih => exact ih stands
  | inlineClass base other | reference base other =>
    obtain rfl := Option.some.inj stands
    exact Option.isSome_of_mem (ClassNames.nameOf?_reserve draft.names base other)

def Defines (fields : List (Text × Node)) (base : Text) (node : Node) : Prop :=
  ∃ field ∈ fields, field.2.isObjectSchema = true ∧ base = Naming.pascalCase field.1 ∧ node = field.2

theorem define_cons (draft : Draft) (field : Text × Node) (rest : List (Text × Node)) :
    draft.define (field :: rest) =
      if field.2.isObjectSchema then
        define ⟨(draft.names.reserve (Naming.pascalCase field.1) field.2).2,
          draft.pending ++
            [⟨(draft.names.reserve (Naming.pascalCase field.1) field.2).1, field.2⟩]⟩ rest
      else draft.define rest := rfl

theorem grants_define (draft : Draft) (fields : List (Text × Node)) :
    ClassNames.Grants (Defines fields) draft.names (draft.define fields).names := by
  induction fields generalizing draft with
  | nil => exact .refl
  | cons field rest ih =>
    have later (draft : Draft) :
        ClassNames.Grants (Defines (field :: rest)) draft.names (draft.define rest).names :=
      (ih draft).mono fun _ _ ⟨other, member, asked⟩ => ⟨other, List.mem_cons_of_mem _ member, asked⟩
    rw [define_cons]
    split
    · rename_i schema
      have here : ClassNames.Grants (Defines (field :: rest)) draft.names
          (draft.names.reserve (Naming.pascalCase field.1) field.2).2 :=
        .one ⟨field, List.mem_cons_self, schema, rfl, rfl⟩
      exact here.trans (later ⟨_, _⟩)
    · exact later draft

def Opens (root : Node) (rootName base : Text) (node : Node) : Prop :=
  base = rootName ∧ node = root ∨
    Defines (sectionFields root "definitions".toList ++ sectionFields root "$defs".toList) base node

theorem grants_start (root : Node) (rootName : Text) :
    ClassNames.Grants (Opens root rootName) .empty (start root rootName).names :=
  have first : ClassNames.Grants (Opens root rootName) .empty (ClassNames.empty.reserve rootName root).2 :=
    .one (.inl ⟨rfl, rfl⟩)
  first.trans ((grants_define ⟨_, _⟩ _).mono fun _ _ => .inr)

end Draft

namespace PropertyModel

variable {root owner : Node}

theorem collect_cons (root owner : Node) (draft : Draft) (field : Text × Node)
    (rest : List (Text × Node)) :
    collect root owner draft (field :: rest) =
      (of field.1 field.2 (owner.required.contains field.1)
          (draft.resolve owner (shapeOf root field)).1
          :: (collect root owner (draft.resolve owner (shapeOf root field)).2 rest).1,
        (collect root owner (draft.resolve owner (shapeOf root field)).2 rest).2) := rfl

def Requests (root : Node) (fields : List (Text × Node)) (base : Text) (node : Node) : Prop :=
  ∃ field ∈ fields, (shapeOf root field).request? = some (base, node)

theorem grants_collect (root owner : Node) (draft : Draft) (fields : List (Text × Node)) :
    ClassNames.Grants (Requests root fields) draft.names (collect root owner draft fields).2.names := by
  induction fields generalizing draft with
  | nil => exact .refl
  | cons field rest ih =>
    have here := (draft.grants_resolve owner (shapeOf root field)).mono fun base node asked =>
      show Requests root (field :: rest) base node from ⟨field, List.mem_cons_self, asked⟩
    rw [collect_cons]
    exact here.trans ((ih _).mono fun _ _ ⟨other, member, asked⟩ =>
      ⟨other, List.mem_cons_of_mem _ member, asked⟩)

theorem extends_collect (root owner : Node) (draft : Draft) (fields : List (Text × Node)) :
    draft.names.Extends (collect root owner draft fields).2.names :=
  (grants_collect root owner draft fields).kept

theorem collect_eq {draft : Draft} {fields : List (Text × Node)} {later : ClassNames}
    (more : (collect root owner draft fields).2.names.Extends later) :
    (collect root owner draft fields).1 = fields.map (ofField later root owner) := by
  induction fields generalizing draft with
  | nil => rfl
  | cons field rest ih =>
    rw [collect_cons] at more ⊢
    have named := Draft.resolve_eq ((extends_collect root owner _ rest).trans more)
    rw [List.map_cons, ih more, named]
    rfl

theorem named_of_collect {draft : Draft} {fields : List (Text × Node)} {field : Text × Node}
    {node : Node} (member : field ∈ fields)
    (stands : (shapeOf root field).namedNode? = some node) :
    ((collect root owner draft fields).2.names.nameOf? node).isSome := by
  induction fields generalizing draft with
  | nil => contradiction
  | cons first rest ih =>
    rw [collect_cons]
    rcases List.mem_cons.mp member with rfl | later
    · exact (extends_collect root owner _ rest).isSome (Draft.named_of_resolve stands)
    · exact ih later

end PropertyModel

namespace ClassModel

theorem grants_build (root : Node) (names : ClassNames) (entry : NamedNode) :
    ClassNames.Grants (PropertyModel.Requests root entry.node.propertyFields) names
      (build root names entry).2.names :=
  PropertyModel.grants_collect root entry.node ⟨names, []⟩ _

theorem extends_build (root : Node) (names : ClassNames) (entry : NamedNode) :
    names.Extends (build root names entry).2.names :=
  (grants_build root names entry).kept

theorem build_eq {root : Node} {names later : ClassNames} {entry : NamedNode}
    (named : names.nameOf? entry.node = some entry.name)
    (more : (build root names entry).2.names.Extends later) :
    (build root names entry).1 = ofNode later root entry.node := by
  have name : later.nameFor entry.node = entry.name :=
    ClassNames.nameFor_eq (more _ _ (extends_build root names entry _ _ named))
  have properties := PropertyModel.collect_eq more
  rw [ofNode, name, ← properties]
  rfl

end ClassModel

end SchemaClasses.Schema
