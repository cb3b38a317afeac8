import SchemaClasses.Proofs.Schema.Shapes

set_option autoImplicit false

namespace SchemaClasses.Schema

namespace Shape

open Node

/-- What a schema is read as under a name, however many references and items are followed. -/
inductive Reads (root : Node) : Text → Node → Shape → Prop where
  | inlined {name : Text} {node next : Node} {shape : Shape} (step : Inlines root node next)
      (later : Reads root name next shape) : Reads root name node shape
  | named {name link : Text} {node target : Node} (reference : node.reference? = some link)
      (found : root.target? link = some target) (named : isNamedTarget target = true) :
      Reads root name node (.reference (referenceName link) target)
  | unresolved {name link : Text} {node : Node} (reference : node.reference? = some link)
      (missing : root.target? link = none) (asks : referenceName link ≠ []) :
      Reads root name node (.unresolved (referenceName link))
  | nameless {name link : Text} {node : Node} (reference : node.reference? = some link)
      (missing : root.target? link = none) (asks : referenceName link = []) :
      Reads root name node (.scalar .object)
  | scalar {name : Text} {node : Node} {type : Scalar} (plain : node.reference? = none)
      (typed : node.scalar? = some type) : Reads root name node (.scalar type)
  | items {name : Text} {node items : Node} {shape : Shape} (array : HasItems node items)
      (later : Reads root (name ++ "Item".toList) items shape) : Reads root name node (.list shape)
  | anyItems {name : Text} {node : Node} (array : LacksItems node) :
      Reads root name node (.list (.scalar .object))
  | inPlace {name : Text} {node : Node} (declares : DeclaresInPlace node) :
      Reads root name node (.inlineClass (Naming.pascalCase name) node)
  | untyped {name : Text} {node : Node} (plain : node.reference? = none)
      (kind : node.kind = .object ∨ node.kind = .unspecified)
      (empty : node.hasProperties = false) : Reads root name node (.scalar .object)

variable {root node next : Node} {name : Text} {shape : Shape} {length steps : Nat}

theorem scalar?_eq_none_of_array (array : node.kind = .array) : node.scalar? = none := by
  rw [scalar?, array]

theorem kind_ne_array_of_scalar? {type : Scalar} (typed : node.scalar? = some type) :
    node.kind ≠ .array := by
  intro array
  rw [scalar?_eq_none_of_array array] at typed
  contradiction

theorem Reads.exists_endsAfter (reads : Reads root name node shape) :
    ∃ length, EndsAfter root length node := by
  induction reads with
  | inlined step _ ih =>
    obtain ⟨length, later⟩ := ih
    exact ⟨length + 1, .follow step.follows later⟩
  | items array _ ih =>
    obtain ⟨length, later⟩ := ih
    exact ⟨length + 1, .follow array.follows later⟩
  | named reference found named =>
    exact ⟨0, .here fun _ => RefersTo.not_follows ⟨_, reference, found⟩ named⟩
  | unresolved reference missing | nameless reference missing =>
    exact ⟨0, .here fun _ => not_follows_of_missing reference missing⟩
  | scalar plain typed =>
    exact ⟨0, .here fun _ => not_follows_of_plain plain (kind_ne_array_of_scalar? typed)⟩
  | anyItems array => exact ⟨0, .here fun _ => array.not_follows⟩
  | inPlace declares => exact ⟨0, .here fun _ => declares.not_follows⟩
  | untyped plain kind =>
    refine ⟨0, .here fun _ => not_follows_of_plain plain fun array => ?_⟩
    rw [array] at kind
    rcases kind with kind | kind <;> contradiction

theorem reads_succ (later : ∀ next asks, Follows root node next →
      Reads root asks next (of root steps asks next)) :
    Reads root name node (of root (steps + 1) name node) := by
  have step := step_of root steps name node
  generalize of root (steps + 1) name node = shape at step ⊢
  cases step with
  | inlined inlines => exact .inlined inlines (later _ name inlines.follows)
  | items array => exact .items array (later _ _ array.follows)
  | named reference found named => exact .named reference found named
  | unresolved reference missing asks => exact .unresolved reference missing asks
  | nameless reference missing asks => exact .nameless reference missing asks
  | scalar plain typed => exact .scalar plain typed
  | anyItems array => exact .anyItems array
  | inPlace declares => exact .inPlace declares
  | untyped plain kind empty => exact .untyped plain kind empty

theorem reads_of (ending : EndsAfter root length node) (enough : length < steps) :
    Reads root name node (of root steps name node) := by
  induction ending generalizing steps name with
  | here ends =>
    obtain ⟨steps, rfl⟩ : ∃ left, steps = left + 1 := ⟨steps - 1, by omega⟩
    exact reads_succ fun next _ step => absurd step (ends next)
  | follow step _ ih =>
    obtain ⟨steps, rfl⟩ : ∃ left, steps = left + 1 := ⟨steps - 1, by omega⟩
    refine reads_succ fun next asks also => ?_
    obtain rfl := step.next_eq also
    exact ih (by omega)

theorem exists_reads_iff : (∃ shape, Reads root name node shape) ↔
    ∃ length, EndsAfter root length node := by
  constructor
  · rintro ⟨shape, reads⟩
    exact reads.exists_endsAfter
  · rintro ⟨length, ending⟩
    exact ⟨_, reads_of ending (Nat.lt_succ_self length)⟩

theorem eventually_of_step (step : ∀ more, Step root (of root more) name node shape) :
    ∃ least, ∀ more, of root (least + more) name node = shape := by
  refine ⟨1, fun more => ?_⟩
  rw [Nat.add_comm]
  exact (step more).eq_of

theorem Reads.eventually (reads : Reads root name node shape) :
    ∃ least, ∀ more, of root (least + more) name node = shape := by
  induction reads with
  | @inlined name _ _ _ step _ ih =>
    obtain ⟨least, same⟩ := ih
    refine ⟨least + 1, fun more => ?_⟩
    rw [Nat.add_right_comm, of_inlines _ name step, same]
  | @items name _ _ _ array _ ih =>
    obtain ⟨least, same⟩ := ih
    refine ⟨least + 1, fun more => ?_⟩
    rw [Nat.add_right_comm, of_hasItems _ name array, same]
  | named reference found named =>
    exact eventually_of_step fun _ => .named reference found named
  | unresolved reference missing asks =>
    exact eventually_of_step fun _ => .unresolved reference missing asks
  | nameless reference missing asks =>
    exact eventually_of_step fun _ => .nameless reference missing asks
  | scalar plain typed => exact eventually_of_step fun _ => .scalar plain typed
  | anyItems array => exact eventually_of_step fun _ => .anyItems array
  | inPlace declares => exact eventually_of_step fun _ => .inPlace declares
  | untyped plain kind empty => exact eventually_of_step fun _ => .untyped plain kind empty

theorem Reads.unique {other : Shape} (one : Reads root name node shape)
    (two : Reads root name node other) : shape = other := by
  obtain ⟨first, same⟩ := one.eventually
  obtain ⟨second, also⟩ := two.eventually
  rw [← same second, Nat.add_comm, also]

theorem reads_ofProperty {document : Json.Value} (name : Text)
    (ending : EndsAfter (Node.root document) length node)
    (inside : Inside (Node.root document) node) :
    Reads (Node.root document) name node (ofProperty (Node.root document) name node) :=
  reads_of ending (Nat.lt_succ_of_lt (ending.lt_size inside))

end Shape

end SchemaClasses.Schema
