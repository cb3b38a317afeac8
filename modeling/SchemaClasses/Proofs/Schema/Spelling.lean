import SchemaClasses.Proofs.Json.Number
import SchemaClasses.Proofs.Naming
import SchemaClasses.Proofs.Schema.ClassNames
import SchemaClasses.Proofs.Schema.Shapes
import SchemaClasses.Schema.Source

set_option autoImplicit false

namespace SchemaClasses.Schema

open Text

def TypeName.Plain : TypeName → Prop
  | .scalar _ | .nullable _ => True
  | .named className => Text.Plain className
  | .list item => item.Plain

def Initializer.Plain : Initializer → Prop
  | .literal text => '\n' ∉ text
  | .construct className => Text.Plain className
  | .collection item => item.Plain

structure PropertyModel.Plain (property : PropertyModel) : Prop where
  name : property.name = Naming.pascalCase property.jsonName
  type : property.type.Plain
  initializer : ∀ initializer, property.initializer? = some initializer → initializer.Plain

structure ClassModel.Plain (model : ClassModel) : Prop where
  name : Text.Plain model.name
  properties : ∀ property ∈ model.properties, property.Plain

structure Resolved.Plain (resolved : Resolved) : Prop where
  type : resolved.type.Plain
  initializer : ∀ initializer, resolved.initializer? = some initializer → initializer.Plain

def ClassNames.Plain (names : ClassNames) : Prop :=
  ∀ entry ∈ names.reserved, Text.Plain entry.1

structure Draft.Plain (draft : Draft) : Prop where
  names : draft.names.Plain
  pending : ∀ entry ∈ draft.pending, Text.Plain entry.name

def Shape.Plain : Shape → Prop
  | .scalar _ => True
  | .list item => item.Plain
  | .inlineClass base _ | .reference base _ => Text.Plain base
  | .unresolved className => Text.Plain className

theorem Scalar.plain_name (type : Scalar) : Text.Plain type.name := by
  have plain : type.name.all isPlain = true := by cases type <;> decide
  exact List.all_eq_true.mp plain

theorem TypeName.isTypeSign_of_mem_render {type : TypeName} (plain : type.Plain) :
    ∀ c ∈ type.render, isTypeSign c = true := by
  induction type with
  | scalar type =>
    intro c member
    exact isTypeSign_of_isPlain (type.plain_name c member)
  | nullable type =>
    intro c member
    rcases List.mem_append.mp member with name | mark
    · exact isTypeSign_of_isPlain (type.plain_name c name)
    · obtain rfl := List.mem_singleton.mp mark
      decide
  | named className =>
    intro c member
    exact isTypeSign_of_isPlain (plain c member)
  | list item ih =>
    have opening : "System.Collections.Generic.IList<".toList.all isTypeSign = true := by decide
    intro c member
    rcases List.mem_append.mp member with before | closing
    · rcases List.mem_append.mp before with front | inner
      · exact List.all_eq_true.mp opening c front
      · exact ih plain c inner
    · obtain rfl := List.mem_singleton.mp closing
      decide

theorem TypeName.visible_of_mem_render {type : TypeName} (plain : type.Plain) :
    ∀ c ∈ type.render, isBlank c = false := fun c member =>
  visible_of_isTypeSign (isTypeSign_of_mem_render plain c member)

namespace ClassNames

theorem plain_numbered {base : Text} (plain : Text.Plain base) (n : Nat) :
    Text.Plain (numbered base n) :=
  plain.append (plain_ofNat n)

theorem plain_free {base : Text} (plain : Text.Plain base) (names : ClassNames) :
    Text.Plain (names.free base) := by
  rcases names.free_eq base with same | ⟨n, -, same⟩
  · rw [same]
    exact plain
  · rw [same]
    exact plain_numbered plain n

theorem plain_reserve {names : ClassNames} {base : Text} (spelled : names.Plain)
    (plain : Text.Plain base) (node : Node) :
    Text.Plain (names.reserve base node).1 ∧ (names.reserve base node).2.Plain := by
  have each : names.Each fun name _ => Text.Plain name := spelled
  have later : (names.reserve base node).2.Each fun name _ => Text.Plain name :=
    each.reserve fun names => plain_free plain names
  exact ⟨later _ (mem_of_nameOf? (names.nameOf?_reserve base node)), later⟩

end ClassNames

theorem Shape.plain_of (root : Node) (steps : Nat) (name : Text) (node : Node) :
    (Shape.of root steps name node).Plain := by
  induction steps generalizing name node with
  | zero => trivial
  | succ steps ih =>
    have step := Shape.step_of root steps name node
    generalize Shape.of root (steps + 1) name node = shape at step ⊢
    cases step with
    | inlined | items => exact ih _ _
    | named | unresolved | inPlace => exact Naming.plain_pascalCase _
    | nameless | scalar | anyItems | untyped => trivial

theorem Resolved.plain_ofClass {className : Text} (plain : Text.Plain className) :
    (ofClass className).Plain :=
  ⟨plain, fun _ same => Option.some.inj same ▸ plain⟩

theorem Resolved.plain_ofReference {className : Text} (plain : Text.Plain className)
    (owner target : Node) : (ofReference owner target className).Plain := by
  unfold ofReference
  split
  · exact ⟨plain, nofun⟩
  · exact plain_ofClass plain

theorem Resolved.Plain.listOf {item : Resolved} (plain : item.Plain) : item.listOf.Plain :=
  ⟨plain.type, fun _ same => Option.some.inj same ▸ plain.type⟩

theorem Draft.plain_enqueue {names : ClassNames} {pending : List NamedNode} (spelled : names.Plain)
    (queued : ∀ entry ∈ pending, Text.Plain entry.name) {name : Text} (plain : Text.Plain name)
    (node : Node) : Draft.Plain ⟨names, pending ++ [⟨name, node⟩]⟩ := by
  refine ⟨spelled, fun entry member => ?_⟩
  rcases List.mem_append.mp member with earlier | here
  · exact queued entry earlier
  · obtain rfl := List.mem_singleton.mp here
    exact plain

theorem Draft.plain_resolve {draft : Draft} {shape : Shape} (spelled : draft.Plain)
    (plain : shape.Plain) (owner : Node) :
    (draft.resolve owner shape).1.Plain ∧ (draft.resolve owner shape).2.Plain := by
  induction shape with
  | scalar type => exact ⟨⟨trivial, nofun⟩, spelled⟩
  | list item ih =>
    obtain ⟨type, later⟩ := ih plain
    exact ⟨type.listOf, later⟩
  | inlineClass base node =>
    obtain ⟨name, names⟩ := ClassNames.plain_reserve spelled.names plain node
    exact ⟨Resolved.plain_ofClass name, plain_enqueue names spelled.pending name node⟩
  | reference base target =>
    obtain ⟨name, names⟩ := ClassNames.plain_reserve spelled.names plain target
    refine ⟨Resolved.plain_ofReference name owner target, ?_⟩
    simp only [Draft.resolve, Draft.reference]
    split
    · exact plain_enqueue names spelled.pending name target
    · exact ⟨names, spelled.pending⟩
  | unresolved className => exact ⟨Resolved.plain_ofClass plain, spelled⟩

theorem newline_notMem_escape (s : Text) : '\n' ∉ escape s := by
  fun_induction escape s <;> simp_all [eq_comm]

theorem newline_notMem_quote (s : Text) : '\n' ∉ quote s := by
  simp [quote, newline_notMem_escape]

theorem newline_notMem_literal? {value : Json.Value} {text : Text} (found : literal? value = some text) :
    '\n' ∉ text := by
  unfold literal? at found
  split at found
  · obtain rfl := Option.some.inj found
    exact newline_notMem_quote _
  · obtain rfl := Option.some.inj found
    exact Json.Number.newline_notMem_render _
  · obtain rfl := Option.some.inj found
    decide
  · obtain rfl := Option.some.inj found
    decide
  · contradiction

namespace PropertyModel

theorem plain_typeFor {resolved : Resolved} (plain : resolved.type.Plain) (required : Bool)
    (initializer? : Option Initializer) : (typeFor resolved required initializer?).Plain := by
  unfold typeFor
  split
  · split <;> trivial
  · exact plain

theorem plain_of {resolved : Resolved} (plain : resolved.Plain) (jsonName : Text) (node : Node)
    (required : Bool) : (of jsonName node required resolved).Plain where
  name := rfl
  type := plain_typeFor plain.type required _
  initializer := by
    intro initializer given
    cases default : (node.value.field? "default".toList).bind literal? with
    | some text =>
      rw [of, default] at given
      obtain rfl := Option.some.inj given
      obtain ⟨value, -, found⟩ := Option.bind_eq_some_iff.mp default
      exact newline_notMem_literal? found
    | none =>
      rw [of, default] at given
      exact plain.initializer initializer given

theorem plain_collect {draft : Draft} (spelled : draft.Plain) (root owner : Node)
    (fields : List (Text × Node)) :
    (∀ property ∈ (collect root owner draft fields).1, property.Plain) ∧
      (collect root owner draft fields).2.Plain := by
  induction fields generalizing draft with
  | nil => exact ⟨nofun, spelled⟩
  | cons field rest ih =>
    obtain ⟨jsonName, node⟩ := field
    obtain ⟨resolved, next⟩ := Draft.plain_resolve spelled
      (Shape.plain_of root (root.value.size + 1) (Naming.pascalCase jsonName) node) owner
    obtain ⟨properties, later⟩ := ih next
    exact ⟨List.forall_mem_cons.mpr ⟨plain_of resolved jsonName node _, properties⟩, later⟩

end PropertyModel

theorem ClassModel.plain_build {names : ClassNames} {entry : NamedNode} (root : Node)
    (spelled : names.Plain) (plain : Text.Plain entry.name) :
    (build root names entry).1.Plain ∧ (build root names entry).2.Plain := by
  have draft : Draft.Plain ⟨names, []⟩ := ⟨spelled, nofun⟩
  obtain ⟨properties, later⟩ :=
    PropertyModel.plain_collect draft root entry.node entry.node.propertyFields
  exact ⟨⟨plain, properties⟩, later⟩

theorem ClassModel.plain_buildAll {root : Node} {steps : Nat} {names : ClassNames}
    {classes : List ClassModel} {pending : List NamedNode} (spelled : names.Plain)
    (built : ∀ model ∈ classes, model.Plain) (queued : ∀ entry ∈ pending, Text.Plain entry.name) :
    ∀ model ∈ buildAll root steps names classes pending, model.Plain := by
  induction steps generalizing names classes pending with
  | zero => exact built
  | succ steps ih =>
    rw [buildAll]
    split
    · exact built
    · rename_i entry rest left
      have within {other : NamedNode} (member : other ∈ entry :: rest) : other ∈ pending :=
        (List.dropWhile_suffix _).subset (left ▸ member)
      obtain ⟨model, later⟩ :=
        plain_build root spelled (queued entry (within List.mem_cons_self))
      refine ih later.names ?_ ?_
      · intro other member
        rcases List.mem_append.mp member with earlier | here
        · exact built other earlier
        · exact List.mem_singleton.mp here ▸ model
      · intro other member
        rcases List.mem_append.mp member with new | old
        · exact later.pending other new
        · exact queued other (within (List.mem_cons_of_mem _ old))

theorem Draft.plain_define {draft : Draft} (spelled : draft.Plain) (fields : List (Text × Node)) :
    (draft.define fields).Plain := by
  induction fields generalizing draft with
  | nil => exact spelled
  | cons field rest ih =>
    obtain ⟨key, node⟩ := field
    rw [define]
    split
    · obtain ⟨name, names⟩ :=
        ClassNames.plain_reserve spelled.names (Naming.plain_pascalCase key) node
      exact ih (plain_enqueue names spelled.pending name node)
    · exact ih spelled

theorem plain_classes {rootName : Text} (plain : Text.Plain rootName) (document : Json.Value) :
    ∀ model ∈ classes document rootName, model.Plain := by
  have empty : ClassNames.empty.Plain := nofun
  have first := ClassNames.plain_reserve empty plain (Node.root document)
  have none : ∀ entry ∈ ([] : List NamedNode), Text.Plain entry.name := nofun
  have opening := Draft.plain_enqueue first.2 none first.1 (Node.root document)
  have start : (Draft.start (Node.root document) rootName).Plain := Draft.plain_define opening _
  exact ClassModel.plain_buildAll start.names nofun start.pending

theorem rootName_eq (document : Json.Value) (path : Path) :
    rootName document path = "Anonymous".toList ∨
      ∃ text, rootName document path = Naming.pascalCase text ∧ Naming.pascalCase text ≠ [] := by
  have kept {name? : Option Text} {name : Text}
      (found : (name?.bind fun text => nonempty? (Naming.pascalCase text)) = some name) :
      ∃ text, name = Naming.pascalCase text ∧ Naming.pascalCase text ≠ [] := by
    obtain ⟨text, -, kept⟩ := Option.bind_eq_some_iff.mp found
    unfold nonempty? at kept
    split at kept
    · contradiction
    · rename_i nonempty
      exact ⟨text, (Option.some.inj kept).symm, nonempty⟩
  rw [rootName]
  cases title : ((document.field? "title".toList).bind Json.Value.string?).bind fun text =>
      nonempty? (Naming.pascalCase text) with
  | some name => exact .inr (kept title)
  | none =>
    cases stem : path.stem?.bind fun text => nonempty? (Naming.pascalCase text) with
    | some name => exact .inr (kept stem)
    | none => exact .inl rfl

theorem plain_rootName (document : Json.Value) (path : Path) :
    Text.Plain (rootName document path) := by
  rcases rootName_eq document path with same | ⟨text, same, -⟩
  · rw [same]
    exact List.all_eq_true.mp (by decide : "Anonymous".toList.all isPlain = true)
  · rw [same]
    exact Naming.plain_pascalCase text

end SchemaClasses.Schema
