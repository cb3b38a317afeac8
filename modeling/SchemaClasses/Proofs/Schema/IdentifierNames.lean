import SchemaClasses.Proofs.PascalCase
import SchemaClasses.Proofs.Schema.OneClassEach
import SchemaClasses.Proofs.Schema.Spelling

set_option autoImplicit false

namespace SchemaClasses

namespace Naming

open Text

def isIdentifier : Text → Bool
  | [] => false
  | c :: rest => isPlain c && !c.isDigit && rest.all isPlain

theorem pascalCase_eq_nil_iff {s : Text} : pascalCase s = [] ↔ ¬ ∃ c ∈ s, c.isAlphanum = true := by
  have head := head?_compound s
  have guarded : guardDigit (compound true s) = [] ↔ compound true s = [] := by
    cases compound true s with
    | nil => rfl
    | cons c rest =>
      rw [guardDigit]
      split <;> simp
  rw [pascalCase_eq_guardDigit, guarded, ← List.head?_eq_none_iff, head, Option.map_eq_none_iff,
    List.find?_eq_none]
  simp

set_option maxRecDepth 4000 in
theorem isDigit_of_isUpper {c : Char} (upper : c.isUpper = true) : c.isDigit = false :=
  forall_ascii (P := fun c => c.isUpper = true → c.isDigit = false) (by decide)
    (ascii_of_isAlphanum (isAlphanum_of_isUpper upper)) upper

theorem isIdentifier_append_iff {s digits : Text} (number : ∀ c ∈ digits, c.isDigit = true) :
    isIdentifier (pascalCase s ++ digits) = true ↔ ∃ c ∈ s, c.isAlphanum = true := by
  cases starts : pascalCase s with
  | nil =>
    refine iff_of_false ?_ (pascalCase_eq_nil_iff.mp starts)
    cases digits with
    | nil => decide
    | cons c digits => simp [isIdentifier, number c List.mem_cons_self]
  | cons c rest =>
    have noDigit : c.isDigit = false := by
      rcases starts_of_pascalCase starts with ⟨rfl, -⟩ | ⟨upper, -⟩
      · decide
      · exact isDigit_of_isUpper upper
    have plain := plain_pascalCase s
    rw [starts] at plain
    obtain ⟨first, others⟩ := List.forall_mem_cons.mp plain
    have numbers : ∀ d ∈ digits, isPlain d = true := fun d member => by
      simp [isPlain, Char.isAlphanum, number d member]
    refine iff_of_true ?_ ?_
    · have all : (rest ++ digits).all isPlain = true :=
        List.all_eq_true.mpr (List.forall_mem_append.mpr ⟨others, numbers⟩)
      rw [List.cons_append, isIdentifier, first, noDigit, all]
      rfl
    · by_contra none
      rw [pascalCase_eq_nil_iff.mpr none] at starts
      cases starts

theorem isIdentifier_pascalCase_iff {s : Text} :
    isIdentifier (pascalCase s) = true ↔ ∃ c ∈ s, c.isAlphanum = true := by
  have plain := isIdentifier_append_iff (s := s) (List.forall_mem_nil _)
  rwa [List.append_nil] at plain

end Naming

namespace Schema

open Node

/-- The texts that the name of a class may be made from: the key of a definition, the key of a property
that leads to a class declared in place, and the end of a link to the class. -/
inductive Wants (root : Node) : Node → Text → Prop where
  | definition {key : Text} {node : Node}
      (listed : (key, node) ∈ Draft.sectionFields root "definitions".toList ++
        Draft.sectionFields root "$defs".toList)
      (schema : node.isObjectSchema = true) : Wants root node key
  | inPlace {owner child node : Node} {key : Text} {arrays : Nat} (outer : ClassNode root owner)
      (declared : (key, child) ∈ owner.propertyFields) (way : LeadsTo root arrays child node)
      (declares : DeclaresInPlace node) : Wants root node (itemName arrays (Naming.pascalCase key))
  | reference {node target : Node} {link : Text} (led : LedTo root node)
      (refers : node.reference? = some link) (found : root.target? link = some target)
      (named : Shape.isNamedTarget target = true) : Wants root target (Text.afterLast '/' link)

def NamedAfter (wanted name : Text) : Prop :=
  name = Naming.pascalCase wanted ∨
    ∃ n, 2 ≤ n ∧ name = ClassNames.numbered (Naming.pascalCase wanted) n

theorem NamedAfter.isIdentifier_iff {wanted name : Text} (named : NamedAfter wanted name) :
    Naming.isIdentifier name = true ↔ ∃ c ∈ wanted, c.isAlphanum = true := by
  rcases named with rfl | ⟨n, -, rfl⟩
  · exact Naming.isIdentifier_pascalCase_iff
  · exact Naming.isIdentifier_append_iff fun _ member => Text.isDigit_of_mem_ofNat member

theorem Wants.inside {root node : Node} {wanted : Text} (wants : Wants root node wanted) :
    Inside root node := by
  cases wants with
  | definition listed schema =>
    have definition : node ∈ definitionNodes root :=
      List.mem_map.mpr ⟨(wanted, node), List.mem_filter.mpr ⟨listed, schema⟩, rfl⟩
    exact (ClassNode.definition definition).inside
  | inPlace outer declared way =>
    exact inside_of_chain way.chain (inside_of_mem_propertyFields outer.inside declared)
  | reference _ _ found => exact inside_of_target? found

namespace Shape

variable {root node target : Node} {steps : Nat} {name base : Text}

theorem request?_of_succ (asked : (of root (steps + 1) name node).request? = some (base, target)) :
    (DeclaresInPlace node ∧ target = node ∧ base = Naming.pascalCase name) ∨
    (∃ link, node.reference? = some link ∧ root.target? link = some target ∧
      isNamedTarget target = true ∧ base = referenceName link) ∨
    (∃ next, Inlines root node next ∧ (of root steps name next).request? = some (base, target)) ∨
    ∃ items, HasItems node items ∧
      (of root steps (name ++ "Item".toList) items).request? = some (base, target) := by
  have step := step_of root steps name node
  generalize of root (steps + 1) name node = shape at step asked
  cases step with
  | inPlace declares =>
    obtain ⟨rfl, rfl⟩ := Prod.mk.inj (Option.some.inj asked)
    exact .inl ⟨declares, rfl, rfl⟩
  | named reference found named =>
    obtain ⟨rfl, rfl⟩ := Prod.mk.inj (Option.some.inj asked)
    exact .inr (.inl ⟨_, reference, found, named, rfl⟩)
  | inlined inlines => exact .inr (.inr (.inl ⟨_, inlines, asked⟩))
  | items array => exact .inr (.inr (.inr ⟨_, array, asked⟩))
  | unresolved | nameless | scalar | anyItems | untyped => cases asked

theorem request?_of (asked : (of root steps name node).request? = some (base, target)) :
    (∃ arrays, LeadsTo root arrays node target ∧ DeclaresInPlace target ∧
      base = Naming.pascalCase (itemName arrays name)) ∨
    ∃ last link, Relation.ReflTransGen (Follows root) node last ∧ last.reference? = some link ∧
      root.target? link = some target ∧ isNamedTarget target = true ∧ base = referenceName link := by
  induction steps generalizing name node with
  | zero => cases asked
  | succ steps ih =>
    rcases request?_of_succ asked with ⟨declares, rfl, rfl⟩ | ⟨link, ending⟩ | ⟨next, step, later⟩ |
      ⟨items, array, later⟩
    · exact .inl ⟨0, .here, declares, rfl⟩
    · exact .inr ⟨node, link, .refl, ending⟩
    · rcases ih later with ⟨arrays, way, inPlace⟩ | ⟨last, link, chain, ending⟩
      · exact .inl ⟨arrays, .inlined step way, inPlace⟩
      · exact .inr ⟨last, link, chain.head step.follows, ending⟩
    · rcases ih later with ⟨arrays, way, inPlace⟩ | ⟨last, link, chain, ending⟩
      · exact .inl ⟨arrays + 1, .item array way, inPlace⟩
      · exact .inr ⟨last, link, chain.head array.follows, ending⟩

theorem exists_wanted {owner : Node} {field : Text × Node} (outer : ClassNode root owner)
    (declared : field ∈ owner.propertyFields)
    (asked : (PropertyModel.shapeOf root field).request? = some (base, target)) :
    ∃ wanted, Wants root target wanted ∧ base = Naming.pascalCase wanted := by
  rcases request?_of asked with ⟨arrays, way, declares, same⟩ |
    ⟨last, link, chain, refers, found, named, same⟩
  · exact ⟨_, .inPlace outer declared way declares, same⟩
  · exact ⟨_, .reference ⟨owner, field, outer, declared, chain⟩ refers found named, same⟩

end Shape

def IsGrant (root : Node) (name : Text) (place : List Nat) : Prop :=
  place = root.position ∨ ∃ node wanted, Wants root node wanted ∧ node.position = place ∧
    NamedAfter wanted name

theorem fits_of_wants {root node : Node} {wanted : Text} (wants : Wants root node wanted) :
    ClassNames.Fits (IsGrant root) (Naming.pascalCase wanted) node :=
  fun names => .inr ⟨node, wanted, wants, rfl, names.free_eq _⟩

theorem each_grant_start (root : Node) (rootName : Text) :
    (Draft.start root rootName).names.Each (IsGrant root) := by
  refine (Draft.grants_start root rootName).each (ClassNames.each_empty _) ?_
  rintro base node (⟨-, rfl⟩ | ⟨field, listed, schema, rfl, rfl⟩)
  · exact fun _ => .inl rfl
  · exact fits_of_wants (.definition listed schema)

theorem each_grant_build {root : Node} {names : ClassNames} {entry : NamedNode}
    (outer : ClassNode root entry.node) (each : names.Each (IsGrant root)) :
    (ClassModel.build root names entry).2.names.Each (IsGrant root) := by
  refine (ClassModel.grants_build root names entry).each each ?_
  rintro base node ⟨field, declared, asked⟩
  obtain ⟨wanted, wants, rfl⟩ := Shape.exists_wanted outer declared asked
  exact fits_of_wants wants

theorem isIdentifier_rootName (document : Json.Value) (path : Path) :
    Naming.isIdentifier (rootName document path) = true := by
  rcases rootName_eq document path with same | ⟨text, same, nonempty⟩
  · rw [same]
    decide
  · rw [same, Naming.isIdentifier_pascalCase_iff]
    by_contra none
    exact nonempty (Naming.pascalCase_eq_nil_iff.mpr none)

theorem exists_wanted_of_named {document : Json.Value} {names : ClassNames} {node : Node} {name : Text}
    (each : names.Each (IsGrant (Node.root document))) (inside : Inside (Node.root document) node)
    (named : names.nameOf? node = some name) (other : node ≠ Node.root document) :
    ∃ wanted, Wants (Node.root document) node wanted ∧ NamedAfter wanted name := by
  rcases each _ (ClassNames.mem_of_nameOf? named) with first | ⟨same, wanted, wants, place, after⟩
  · exact absurd (inside.eq_of_position .self first) other
  · obtain rfl := wants.inside.eq_of_position inside place
    exact ⟨wanted, wants, after⟩

theorem names_identifiers_iff (document : Json.Value) (path : Path)
    (object : document.isObject = true) :
    ∃ nodes names, Emits document (rootName document path) nodes names ∧
      ∀ node ∈ nodes,
        let model := ClassModel.ofNode names (Node.root document) node
        (node = Node.root document → model.name = rootName document path ∧
          Naming.isIdentifier model.name = true) ∧
        (node ≠ Node.root document → ∃ wanted, Wants (Node.root document) node wanted ∧
          NamedAfter wanted model.name ∧
          (Naming.isIdentifier model.name = true ↔ ∃ c ∈ wanted, c.isAlphanum = true)) ∧
        ∀ property ∈ model.properties, (Naming.isIdentifier property.name = true ↔
          ∃ c ∈ property.jsonName, c.isAlphanum = true) := by
  obtain ⟨nodes, names, -, ⟨more, each⟩, agenda, progress⟩ :=
    exists_run_keeping document (rootName document path)
      (fun names => (Draft.start (Node.root document) (rootName document path)).names.Extends names ∧
        names.Each (IsGrant (Node.root document)))
      ⟨.refl _, each_grant_start _ _⟩ fun _ _ outer kept =>
        ⟨kept.1.trans (ClassModel.extends_build _ _ _), each_grant_build outer kept.2⟩
  have emits := Finished.emits ⟨more, agenda, progress⟩ object
  refine ⟨nodes, names, emits, ?_⟩
  intro node member model
  refine ⟨?_, ?_, ?_⟩
  · rintro rfl
    have rooted : model.name = rootName document path := emits.rootNamed
    exact ⟨rooted, rooted ▸ isIdentifier_rootName document path⟩
  · intro other
    obtain ⟨name, named⟩ := Option.isSome_iff_exists.mp (agenda.named node member)
    have inside := agenda.inside (List.mem_append_left _ member)
    obtain ⟨wanted, wants, after⟩ := exists_wanted_of_named each inside named other
    rw [← ClassNames.nameFor_eq named] at after
    exact ⟨wanted, wants, after, after.isIdentifier_iff⟩
  · intro property listed
    obtain ⟨field, -, rfl⟩ := List.mem_map.mp listed
    exact Naming.isIdentifier_pascalCase_iff

def accentedKeys : Json.Value :=
  .object [
    ("title".toList, .string "Menü".toList),
    ("properties".toList, .object [
      ("é".toList, .object [("properties".toList, .object [])]),
      ("2é".toList, .object [("$ref".toList, .string "#/definitions/$".toList)])]),
    ("definitions".toList, .object [
      ("$".toList, .object [("type".toList, .string "object".toList)])])]

theorem identifiers_of_accentedKeys : accentedKeys.isObject = true ∧
    ∀ model ∈ classes accentedKeys (rootName accentedKeys ⟨"menu.json".toList⟩),
      ∀ property ∈ model.properties,
        (Naming.isIdentifier property.name = true ↔ property.jsonName = "2é".toList) := by
  have object : accentedKeys.isObject = true := rfl
  obtain ⟨nodes, names, emits, all⟩ :=
    names_identifiers_iff accentedKeys ⟨"menu.json".toList⟩ object
  have keys : ∀ model ∈ classes accentedKeys (rootName accentedKeys ⟨"menu.json".toList⟩),
      ∀ property ∈ model.properties, (property.jsonName.any Char.isAlphanum = true ↔
        property.jsonName = "2é".toList) := by
    decide +kernel
  refine ⟨object, fun model listed property member => ?_⟩
  have node := emits.models ▸ listed
  obtain ⟨owner, inside, rfl⟩ := List.mem_map.mp node
  have key := keys _ listed property member
  rw [List.any_eq_true] at key
  exact ((all owner inside).2.2 property member).trans key

theorem names_lost_of_accentedKeys :
    let models := classes accentedKeys (rootName accentedKeys ⟨"menu.json".toList⟩)
    models.map ClassModel.name = ["Men".toList, ['2'], []] ∧
    (models.flatMap ClassModel.properties).map PropertyModel.name = [[], "_2".toList] ∧
    ¬ ∀ model ∈ models, Naming.isIdentifier model.name = true ∧
      ∀ property ∈ model.properties, Naming.isIdentifier property.name = true := by
  decide +kernel

end Schema

end SchemaClasses
