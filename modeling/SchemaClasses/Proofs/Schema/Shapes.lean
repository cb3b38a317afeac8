import SchemaClasses.Proofs.Schema.References

set_option autoImplicit false

namespace SchemaClasses.Schema

def Node.scalar? (node : Node) : Option Scalar :=
  match node.kind with
  | .string => some .string
  | .integer => some (if node.text? "format".toList = some "int64".toList then .long else .int)
  | .number => some .double
  | .boolean => some .bool
  | .array | .object | .unspecified => none

def itemName : Nat → Text → Text
  | 0, name => name
  | arrays + 1, name => itemName arrays (name ++ "Item".toList)

namespace Shape

open Node

def nested : Nat → Shape → Shape
  | 0, shape => shape
  | arrays + 1, shape => .list (nested arrays shape)

def leaf : Shape → Shape
  | .list item => item.leaf
  | shape => shape

def classNode? : Shape → Option Node
  | .list item => item.classNode?
  | .inlineClass _ node => some node
  | .reference _ target => if target.isObjectSchema then some target else none
  | .scalar _ | .unresolved _ => none

def namedNode? : Shape → Option Node
  | .list item => item.namedNode?
  | .inlineClass _ node | .reference _ node => some node
  | .scalar _ | .unresolved _ => none

def request? : Shape → Option (Text × Node)
  | .list item => item.request?
  | .inlineClass base node | .reference base node => some (base, node)
  | .scalar _ | .unresolved _ => none

theorem namedNode?_of_request? {shape : Shape} {base : Text} {node : Node}
    (asked : shape.request? = some (base, node)) : shape.namedNode? = some node := by
  induction shape with
  | scalar | unresolved => contradiction
  | list item ih => exact ih asked
  | inlineClass | reference =>
    obtain ⟨-, rfl⟩ := Prod.mk.inj (Option.some.inj asked)
    rfl

theorem namedNode?_of_classNode? {shape : Shape} {node : Node}
    (stands : shape.classNode? = some node) : shape.namedNode? = some node := by
  induction shape with
  | scalar | unresolved => contradiction
  | list item ih => exact ih stands
  | inlineClass base other => exact stands
  | reference base target =>
    rw [classNode?] at stands
    split at stands
    · exact stands
    · contradiction

theorem namedNode?_leaf (shape : Shape) : shape.leaf.namedNode? = shape.namedNode? := by
  induction shape with
  | list item ih => rw [leaf, ih, namedNode?]
  | scalar | inlineClass | reference | unresolved => rfl

theorem classNode?_leaf (shape : Shape) : shape.leaf.classNode? = shape.classNode? := by
  induction shape with
  | list item ih => rw [leaf, ih, classNode?]
  | scalar | inlineClass | reference | unresolved => rfl

theorem leaf_nested (arrays : Nat) (shape : Shape) : (nested arrays shape).leaf = shape.leaf := by
  induction arrays with
  | zero => rfl
  | succ arrays ih => rw [nested, leaf, ih]

theorem leaf_ne_list (shape item : Shape) : shape.leaf ≠ .list item := by
  induction shape with
  | list inner ih => exact ih
  | scalar | inlineClass | reference | unresolved => exact nofun

variable {root node next target : Node} {steps : Nat} {name : Text} {shape : Shape}

/-- What one step makes of a schema, where `rest` makes what the schema leads to. -/
inductive Step (root : Node) (rest : Text → Node → Shape) (name : Text) (node : Node) :
    Shape → Prop where
  | inlined {next : Node} (inlines : Inlines root node next) :
      Step root rest name node (rest name next)
  | named {link : Text} {target : Node} (reference : node.reference? = some link)
      (found : root.target? link = some target) (named : isNamedTarget target = true) :
      Step root rest name node (.reference (referenceName link) target)
  | unresolved {link : Text} (reference : node.reference? = some link)
      (missing : root.target? link = none) (asks : referenceName link ≠ []) :
      Step root rest name node (.unresolved (referenceName link))
  | nameless {link : Text} (reference : node.reference? = some link)
      (missing : root.target? link = none) (asks : referenceName link = []) :
      Step root rest name node (.scalar .object)
  | scalar {type : Scalar} (plain : node.reference? = none) (typed : node.scalar? = some type) :
      Step root rest name node (.scalar type)
  | items {items : Node} (array : HasItems node items) :
      Step root rest name node (.list (rest (name ++ "Item".toList) items))
  | anyItems (array : LacksItems node) : Step root rest name node (.list (.scalar .object))
  | inPlace (declares : DeclaresInPlace node) :
      Step root rest name node (.inlineClass (Naming.pascalCase name) node)
  | untyped (plain : node.reference? = none)
      (kind : node.kind = .object ∨ node.kind = .unspecified)
      (empty : node.hasProperties = false) : Step root rest name node (.scalar .object)

theorem step_of (root : Node) (steps : Nat) (name : Text) (node : Node) :
    Step root (of root steps) name node (of root (steps + 1) name node) := by
  rw [of]
  split
  · rename_i link reference
    split
    · rename_i target found
      split
      · rename_i named
        exact .named reference found named
      · rename_i unnamed
        exact .inlined (RefersTo.inlines ⟨link, reference, found⟩ unnamed)
    · rename_i missing
      split
      · rename_i asks
        exact .nameless reference missing asks
      · rename_i asks
        exact .unresolved reference missing asks
  · rename_i plain
    split
    case h_1 kind => exact .scalar plain (by rw [scalar?, kind])
    case h_2 kind =>
      split
      · rename_i format
        exact .scalar plain (by rw [scalar?, kind]; exact congrArg some (if_pos format))
      · rename_i format
        exact .scalar plain (by rw [scalar?, kind]; exact congrArg some (if_neg format))
    case h_3 kind => exact .scalar plain (by rw [scalar?, kind])
    case h_4 kind => exact .scalar plain (by rw [scalar?, kind])
    case h_5 kind =>
      split
      · rename_i items found
        split
        · rename_i schema
          exact .items ⟨plain, kind, found, schema⟩
        · rename_i noSchema
          exact .anyItems ⟨plain, kind, fun other also =>
            Option.some.inj (found.symm.trans also) ▸ noSchema⟩
      · rename_i missing
        exact .anyItems ⟨plain, kind, missing ▸ nofun⟩
    case h_6 kind =>
      split
      · rename_i properties
        exact .inPlace ⟨plain, .inl kind, properties⟩
      · rename_i noProperties
        exact .untyped plain (.inl kind) (eq_false_of_ne_true noProperties)
    case h_7 kind =>
      split
      · rename_i properties
        exact .inPlace ⟨plain, .inr kind, properties⟩
      · rename_i noProperties
        exact .untyped plain (.inr kind) (eq_false_of_ne_true noProperties)

theorem of_scalar? {type : Scalar} (steps : Nat) (name : Text) (plain : node.reference? = none)
    (typed : node.scalar? = some type) : of root (steps + 1) name node = .scalar type := by
  rw [scalar?] at typed
  cases kind : node.kind with
  | array | object | unspecified =>
    rw [kind] at typed
    contradiction
  | string | number | boolean =>
    rw [kind] at typed
    obtain rfl := Option.some.inj typed
    simp only [of, plain, kind]
  | integer =>
    rw [kind] at typed
    obtain rfl := Option.some.inj typed
    simp only [of, plain, kind]
    split <;> rfl

theorem of_declaresInPlace (steps : Nat) (name : Text) (declares : DeclaresInPlace node) :
    of root (steps + 1) name node = .inlineClass (Naming.pascalCase name) node := by
  rcases declares.kind with kind | kind <;> simp [of, declares.plain, kind, declares.properties]

theorem of_inlines (steps : Nat) (name : Text) (step : Inlines root node next) :
    of root (steps + 1) name node = of root steps name next := by
  have unnamed := step.unnamed
  obtain ⟨link, reference, found⟩ := step.refers
  simp [of, reference, found, unnamed]

theorem of_hasItems (steps : Nat) (name : Text) (array : HasItems node next) :
    of root (steps + 1) name node = .list (of root steps (name ++ "Item".toList) next) := by
  simp only [of, array.plain, array.kind, array.found, array.schema, if_true]

theorem of_lacksItems (steps : Nat) (name : Text) (lacks : LacksItems node) :
    of root (steps + 1) name node = .list (.scalar .object) := by
  simp only [of, lacks.plain, lacks.kind]
  split
  · rename_i items found
    rw [if_neg (lacks.missing items found)]
  · rfl

theorem Step.eq_of (step : Step root (of root steps) name node shape) :
    of root (steps + 1) name node = shape := by
  cases step with
  | inlined inlines => exact of_inlines steps name inlines
  | named reference found named => simp [of, reference, found, named]
  | unresolved reference missing asks => simp [of, reference, missing, asks]
  | nameless reference missing asks => simp [of, reference, missing, asks]
  | scalar plain typed => exact of_scalar? steps name plain typed
  | items array => exact of_hasItems steps name array
  | anyItems array => exact of_lacksItems steps name array
  | inPlace declares => exact of_declaresInPlace steps name declares
  | untyped plain kind empty => rcases kind with kind | kind <;> simp [of, plain, kind, empty]

theorem of_refersTo (steps : Nat) (name : Text) (refers : RefersTo root node target)
    (named : isNamedTarget target = true) :
    ∃ base, of root (steps + 1) name node = .reference base target := by
  obtain ⟨link, reference, found⟩ := refers
  exact ⟨referenceName link, (Step.named reference found named).eq_of⟩

inductive Ending (root node : Node) : Shape → Prop where
  | scalar (type : Scalar) : Ending root node (.scalar type)
  | unresolved {link : Text} (className : Text) (reference : node.reference? = some link)
      (missing : root.target? link = none) : Ending root node (.unresolved className)
  | inPlace (base : Text) (declares : DeclaresInPlace node) :
      Ending root node (.inlineClass base node)
  | reference {target : Node} (base : Text) (refers : RefersTo root node target)
      (named : isNamedTarget target = true) : Ending root node (.reference base target)

theorem ending_or_follows (root node : Node) (steps : Nat) (name : Text) :
    Ending root node (of root (steps + 1) name node).leaf ∨
      ∃ next asks, Follows root node next ∧
        (of root (steps + 1) name node).leaf = (of root steps asks next).leaf := by
  have step := step_of root steps name node
  generalize of root (steps + 1) name node = shape at step ⊢
  cases step with
  | inlined inlines => exact .inr ⟨_, name, inlines.follows, rfl⟩
  | items array => exact .inr ⟨_, _, array.follows, rfl⟩
  | named reference found named => exact .inl (.reference _ ⟨_, reference, found⟩ named)
  | unresolved reference missing => exact .inl (.unresolved _ reference missing)
  | inPlace declares => exact .inl (.inPlace _ declares)
  | nameless | scalar | anyItems | untyped => exact .inl (.scalar _)

theorem exists_ending (root node : Node) (steps : Nat) (name : Text) :
    ∃ last, Relation.ReflTransGen (Follows root) node last ∧
      Ending root last (of root steps name node).leaf := by
  induction steps generalizing name node with
  | zero => exact ⟨node, .refl, .scalar .object⟩
  | succ steps ih =>
    rcases ending_or_follows root node steps name with ending | ⟨next, asks, step, same⟩
    · exact ⟨node, .refl, ending⟩
    · obtain ⟨last, chain, ending⟩ := ih next asks
      exact ⟨last, chain.head step, same ▸ ending⟩

theorem mentions_of_classNode? (found : (of root steps name node).classNode? = some target) :
    Mentions root node target := by
  obtain ⟨last, chain, ending⟩ := exists_ending root node steps name
  rw [← classNode?_leaf] at found
  generalize (of root steps name node).leaf = shape at ending found
  refine .of_chain chain ?_
  cases ending with
  | scalar | unresolved => contradiction
  | inPlace base declares =>
    obtain rfl := Option.some.inj found
    exact .inPlace declares
  | reference base refers =>
    rw [classNode?] at found
    split at found
    · rename_i schema
      obtain rfl := Option.some.inj found
      exact .reference refers schema
    · contradiction

theorem exists_last_of_reference {base : Text}
    (found : (of root steps name node).leaf = .reference base target) :
    ∃ last, Relation.ReflTransGen (Follows root) node last ∧ RefersTo root last target ∧
      isNamedTarget target = true := by
  obtain ⟨last, chain, ending⟩ := exists_ending root node steps name
  rw [found] at ending
  cases ending with
  | reference base refers named => exact ⟨last, chain, refers, named⟩

theorem Step.congr {rest other : Text → Node → Shape} (step : Step root rest name node shape)
    (agree : ∀ next asks, Follows root node next → rest asks next = other asks next) :
    Step root other name node shape := by
  cases step with
  | inlined inlines =>
    rw [agree _ name inlines.follows]
    exact .inlined inlines
  | items array =>
    rw [agree _ _ array.follows]
    exact .items array
  | named reference found named => exact .named reference found named
  | unresolved reference missing asks => exact .unresolved reference missing asks
  | nameless reference missing asks => exact .nameless reference missing asks
  | scalar plain typed => exact .scalar plain typed
  | anyItems array => exact .anyItems array
  | inPlace declares => exact .inPlace declares
  | untyped plain kind empty => exact .untyped plain kind empty

theorem of_succ_congr {other : Nat}
    (agree : ∀ next asks, Follows root node next →
      of root steps asks next = of root other asks next) :
    of root (steps + 1) name node = of root (other + 1) name node :=
  ((step_of root steps name node).congr agree).eq_of.symm

theorem of_stable {length other : Nat} (ending : EndsAfter root length node)
    (enough : length < steps) (more : length < other) :
    of root steps name node = of root other name node := by
  obtain ⟨steps, rfl⟩ : ∃ left, steps = left + 1 := ⟨steps - 1, by omega⟩
  obtain ⟨other, rfl⟩ : ∃ left, other = left + 1 := ⟨other - 1, by omega⟩
  induction ending generalizing steps other name with
  | here ends => exact of_succ_congr fun next _ step => absurd step (ends next)
  | follow step later ih =>
    refine of_succ_congr fun next asks also => ?_
    obtain rfl := step.next_eq also
    obtain ⟨steps, rfl⟩ : ∃ left, steps = left + 1 := ⟨steps - 1, by omega⟩
    obtain ⟨other, rfl⟩ : ∃ left, other = left + 1 := ⟨other - 1, by omega⟩
    exact ih steps (by omega) other (by omega)

theorem ofProperty_eq {document : Json.Value} {length : Nat} (name : Text)
    (ending : EndsAfter (Node.root document) length node)
    (inside : Inside (Node.root document) node) (enough : length < steps) :
    ofProperty (Node.root document) name node = of (Node.root document) steps name node :=
  of_stable ending (Nat.lt_succ_of_lt (ending.lt_size inside)) enough

theorem of_leadsTo {arrays : Nat} {last : Node} (way : LeadsTo root arrays node last) :
    ∃ further, ∀ left name,
      of root (left + further) name node = nested arrays (of root left (itemName arrays name) last) := by
  induction way with
  | here => exact ⟨0, fun left name => rfl⟩
  | inlined step _ ih =>
    obtain ⟨further, same⟩ := ih
    exact ⟨further + 1, fun left name => (of_inlines (left + further) name step).trans (same left name)⟩
  | item array _ ih =>
    obtain ⟨further, same⟩ := ih
    exact ⟨further + 1, fun left name => (of_hasItems (left + further) name array).trans
      (congrArg list (same left (name ++ "Item".toList)))⟩

theorem ofProperty_of_leadsTo {document : Json.Value} {arrays : Nat} {last : Node} (name : Text)
    (inside : Inside (Node.root document) node)
    (way : LeadsTo (Node.root document) arrays node last)
    (ends : ∀ next, ¬ Follows (Node.root document) last next) :
    ∃ left, ofProperty (Node.root document) name node =
      nested arrays (of (Node.root document) (left + 1) (itemName arrays name) last) := by
  obtain ⟨length, ending⟩ := exists_endsAfter way.chain ends
  obtain ⟨further, same⟩ := of_leadsTo way
  refine ⟨length, ?_⟩
  rw [ofProperty_eq name ending inside (show length < length + 1 + further by omega), same]

theorem ofProperty_of_declaresInPlace {document : Json.Value} {arrays : Nat} {last : Node}
    (name : Text) (inside : Inside (Node.root document) node)
    (way : LeadsTo (Node.root document) arrays node last) (declares : DeclaresInPlace last) :
    ofProperty (Node.root document) name node =
      nested arrays (.inlineClass (Naming.pascalCase (itemName arrays name)) last) := by
  obtain ⟨left, shape⟩ := ofProperty_of_leadsTo name inside way fun _ => declares.not_follows
  rw [shape, of_declaresInPlace left _ declares]

theorem ofProperty_of_refersTo {document : Json.Value} {arrays : Nat} {last : Node} (name : Text)
    (inside : Inside (Node.root document) node)
    (way : LeadsTo (Node.root document) arrays node last)
    (refers : RefersTo (Node.root document) last target) (named : isNamedTarget target = true) :
    ∃ base, ofProperty (Node.root document) name node = nested arrays (.reference base target) := by
  obtain ⟨left, shape⟩ := ofProperty_of_leadsTo name inside way fun _ =>
    refers.not_follows named
  obtain ⟨base, same⟩ := of_refersTo left (itemName arrays name) refers named
  exact ⟨base, shape.trans (congrArg _ same)⟩

theorem leaf_ofProperty_of_refersTo {document : Json.Value} {last : Node} (name : Text)
    (inside : Inside (Node.root document) node)
    (chain : Relation.ReflTransGen (Follows (Node.root document)) node last)
    (refers : RefersTo (Node.root document) last target) (named : isNamedTarget target = true) :
    ∃ base, (ofProperty (Node.root document) name node).leaf = .reference base target := by
  obtain ⟨arrays, way⟩ := exists_leadsTo chain
  obtain ⟨base, shape⟩ := ofProperty_of_refersTo name inside way refers named
  exact ⟨base, by rw [shape, leaf_nested]; rfl⟩

theorem classNode?_ofProperty {document : Json.Value}
    (inside : Inside (Node.root document) node) :
    (ofProperty (Node.root document) name node).classNode? = some target ↔
      Mentions (Node.root document) node target := by
  constructor
  · exact mentions_of_classNode?
  · intro mentions
    obtain ⟨last, chain, ⟨declares, rfl⟩ | ⟨refers, schema⟩⟩ := mentions.exists_last
    · obtain ⟨arrays, way⟩ := exists_leadsTo chain
      have shape := ofProperty_of_declaresInPlace name inside way declares
      rw [← classNode?_leaf, shape, leaf_nested]
      rfl
    · have named : isNamedTarget target = true := by rw [isNamedTarget, schema, Bool.true_or]
      obtain ⟨base, shape⟩ := leaf_ofProperty_of_refersTo name inside chain refers named
      rw [← classNode?_leaf, shape, classNode?, if_pos schema]

end Shape

end SchemaClasses.Schema
