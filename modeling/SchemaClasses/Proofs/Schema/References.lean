import Mathlib.Logic.Relation
import SchemaClasses.Proofs.Schema.Document
import SchemaClasses.Schema.Shape

set_option autoImplicit false

namespace SchemaClasses.Schema

namespace Node

def RefersTo (root node target : Node) : Prop :=
  ∃ link, node.reference? = some link ∧ root.target? link = some target

structure DeclaresInPlace (node : Node) : Prop where
  plain : node.reference? = none
  kind : node.kind = .object ∨ node.kind = .unspecified
  properties : node.hasProperties = true

/-- The step from a schema that declares no class to the one that stands for it or for its items. -/
inductive Follows (root : Node) : Node → Node → Prop where
  | reference {node target : Node} (refers : RefersTo root node target)
      (noClass : target.isObjectSchema = false)
      (last : target.value.field? "$ref".toList = none) : Follows root node target
  | items {node items : Node} (plain : node.reference? = none) (array : node.kind = .array)
      (found : node.field? "items".toList = some items) (schema : items.isObject = true) :
      Follows root node items

/-- The class that a schema stands for, if it stands for one. -/
inductive Mentions (root : Node) : Node → Node → Prop where
  | inPlace {node : Node} (declares : DeclaresInPlace node) : Mentions root node node
  | reference {node target : Node} (refers : RefersTo root node target)
      (schema : target.isObjectSchema = true) : Mentions root node target
  | follow {node next target : Node} (step : Follows root node next)
      (later : Mentions root next target) : Mentions root node target

theorem isNamedTarget_eq_false {target : Node} (unnamed : ¬ Shape.isNamedTarget target = true) :
    target.isObjectSchema = false ∧ target.value.field? "$ref".toList = none := by
  simpa [Shape.isNamedTarget] using unnamed

theorem RefersTo.target_eq {root node first second : Node} (one : RefersTo root node first)
    (two : RefersTo root node second) : first = second := by
  obtain ⟨link, refers, found⟩ := one
  obtain ⟨other, also, there⟩ := two
  obtain rfl := Option.some.inj (refers.symm.trans also)
  exact Option.some.inj (found.symm.trans there)

theorem RefersTo.not_plain {root node target : Node} (refers : RefersTo root node target) :
    node.reference? ≠ none := by
  obtain ⟨link, found, -⟩ := refers
  simp [found]

theorem Follows.next_eq {root node first second : Node} (one : Follows root node first)
    (two : Follows root node second) : first = second := by
  cases one with
  | reference refers =>
    cases two with
    | reference also => exact refers.target_eq also
    | items plain => exact absurd plain refers.not_plain
  | items plain array found =>
    cases two with
    | reference refers => exact absurd plain refers.not_plain
    | items _ _ also => exact Option.some.inj (found.symm.trans also)

/-- The step from a reference to a definition that stands for no class and refers no further. -/
structure Inlines (root node next : Node) : Prop where
  refers : RefersTo root node next
  noClass : next.isObjectSchema = false
  last : next.value.field? "$ref".toList = none

theorem Inlines.follows {root node next : Node} (step : Inlines root node next) :
    Follows root node next :=
  .reference step.refers step.noClass step.last

theorem Inlines.unnamed {root node next : Node} (step : Inlines root node next) :
    ¬ Shape.isNamedTarget next = true := by
  rw [Shape.isNamedTarget, step.noClass, step.last]
  decide

theorem RefersTo.inlines {root node target : Node} (refers : RefersTo root node target)
    (unnamed : ¬ Shape.isNamedTarget target = true) : Inlines root node target :=
  ⟨refers, (isNamedTarget_eq_false unnamed).1, (isNamedTarget_eq_false unnamed).2⟩

structure HasItems (node items : Node) : Prop where
  plain : node.reference? = none
  kind : node.kind = .array
  found : node.field? "items".toList = some items
  schema : items.isObject = true

theorem HasItems.follows {root node items : Node} (array : HasItems node items) :
    Follows root node items :=
  .items array.plain array.kind array.found array.schema

structure LacksItems (node : Node) : Prop where
  plain : node.reference? = none
  kind : node.kind = .array
  missing : ∀ items ∈ node.field? "items".toList, ¬ items.isObject = true

theorem follows_iff {root node next : Node} :
    Follows root node next ↔ Inlines root node next ∨ HasItems node next := by
  constructor
  · intro step
    cases step with
    | reference refers noClass last => exact .inl ⟨refers, noClass, last⟩
    | items plain kind found schema => exact .inr ⟨plain, kind, found, schema⟩
  · rintro (step | array)
    · exact step.follows
    · exact array.follows

theorem not_follows_of_plain {root node next : Node} (plain : node.reference? = none)
    (noArray : node.kind ≠ .array) : ¬ Follows root node next := by
  intro step
  cases step with
  | reference refers => exact refers.not_plain plain
  | items _ array => exact noArray array

theorem DeclaresInPlace.not_follows {root node next : Node} (declares : DeclaresInPlace node) :
    ¬ Follows root node next := by
  refine not_follows_of_plain declares.plain fun array => ?_
  rcases declares.kind with kind | kind <;> simp [array] at kind

theorem RefersTo.not_follows {root node target next : Node} (refers : RefersTo root node target)
    (named : Shape.isNamedTarget target = true) : ¬ Follows root node next := by
  intro step
  cases step with
  | reference also noClass last =>
    rw [refers.target_eq also, Shape.isNamedTarget, noClass, last] at named
    contradiction
  | items plain => exact refers.not_plain plain

theorem not_follows_of_missing {root node next : Node} {link : Text}
    (reference : node.reference? = some link) (missing : root.target? link = none) :
    ¬ Follows root node next := by
  intro step
  cases step with
  | reference refers =>
    obtain ⟨other, also, found⟩ := refers
    obtain rfl := Option.some.inj (reference.symm.trans also)
    rw [missing] at found
    contradiction
  | items plain =>
    rw [plain] at reference
    contradiction

theorem LacksItems.not_follows {root node next : Node} (array : LacksItems node) :
    ¬ Follows root node next := by
  intro step
  cases step with
  | reference refers => exact refers.not_plain array.plain
  | items _ _ found schema => exact array.missing next found schema

theorem Mentions.of_chain {root node last target : Node}
    (chain : Relation.ReflTransGen (Follows root) node last) (mentions : Mentions root last target) :
    Mentions root node target := by
  induction chain using Relation.ReflTransGen.head_induction_on with
  | refl => exact mentions
  | head step later ih => exact .follow step ih

theorem Mentions.exists_last {root node target : Node} (mentions : Mentions root node target) :
    ∃ last, Relation.ReflTransGen (Follows root) node last ∧
      (DeclaresInPlace last ∧ last = target ∨
        RefersTo root last target ∧ target.isObjectSchema = true) := by
  induction mentions with
  | inPlace declares => exact ⟨_, .refl, .inl ⟨declares, rfl⟩⟩
  | reference refers schema => exact ⟨_, .refl, .inr ⟨refers, schema⟩⟩
  | follow step later ih =>
    obtain ⟨last, chain, ending⟩ := ih
    exact ⟨last, chain.head step, ending⟩

theorem inside_of_target? {root target : Node} {link : Text}
    (found : root.target? link = some target) : Inside root target := by
  unfold target? at found
  split at found
  · obtain rfl := Option.some.inj found
    exact .self
  · obtain ⟨path, -, found⟩ := Option.bind_eq_some_iff.mp found
    obtain ⟨⟨group, name⟩, -, found⟩ := Option.bind_eq_some_iff.mp found
    obtain ⟨section_, outer, inner⟩ := Option.bind_eq_some_iff.mp found
    exact (Inside.self.of_field? outer).of_field? inner

theorem RefersTo.inside {root node target : Node} (refers : RefersTo root node target) :
    Inside root target := by
  obtain ⟨link, -, found⟩ := refers
  exact inside_of_target? found

theorem Follows.inside {root node next : Node} (step : Follows root node next)
    (inside : Inside root node) : Inside root next := by
  cases step with
  | reference refers => exact refers.inside
  | items _ _ found => exact inside.of_field? found

theorem inside_of_chain {root node last : Node}
    (chain : Relation.ReflTransGen (Follows root) node last) (inside : Inside root node) :
    Inside root last := by
  induction chain with
  | refl => exact inside
  | tail _ step ih => exact step.inside ih

theorem Mentions.inside {root node target : Node} (mentions : Mentions root node target)
    (inside : Inside root node) : Inside root target := by
  induction mentions with
  | inPlace => exact inside
  | reference refers => exact refers.inside
  | follow step _ ih => exact ih (step.inside inside)

/-- The chain of a schema up to one of its nodes, with the number of arrays on the way. -/
inductive LeadsTo (root : Node) : Nat → Node → Node → Prop where
  | here {node : Node} : LeadsTo root 0 node node
  | inlined {arrays : Nat} {node next last : Node} (step : Inlines root node next)
      (later : LeadsTo root arrays next last) : LeadsTo root arrays node last
  | item {arrays : Nat} {node items last : Node} (array : HasItems node items)
      (later : LeadsTo root arrays items last) : LeadsTo root (arrays + 1) node last

theorem LeadsTo.chain {root node last : Node} {arrays : Nat} (way : LeadsTo root arrays node last) :
    Relation.ReflTransGen (Follows root) node last := by
  induction way with
  | here => exact .refl
  | inlined step _ ih => exact ih.head step.follows
  | item array _ ih => exact ih.head array.follows

theorem exists_leadsTo {root node last : Node}
    (chain : Relation.ReflTransGen (Follows root) node last) :
    ∃ arrays, LeadsTo root arrays node last := by
  induction chain using Relation.ReflTransGen.head_induction_on with
  | refl => exact ⟨0, .here⟩
  | head step _ ih =>
    obtain ⟨arrays, way⟩ := ih
    rcases follows_iff.mp step with inlines | array
    · exact ⟨arrays, .inlined inlines way⟩
    · exact ⟨arrays + 1, .item array way⟩

theorem leadsTo_zero_iff {root node last : Node} :
    LeadsTo root 0 node last ↔ Relation.ReflTransGen (Inlines root) node last := by
  constructor
  · intro way
    generalize none : 0 = arrays at way
    induction way with
    | here => exact .refl
    | inlined step _ ih => exact (ih none).head step
    | item => contradiction
  · intro chain
    induction chain using Relation.ReflTransGen.head_induction_on with
    | refl => exact .here
    | head step _ ih => exact .inlined step ih

/-- No schema leads back to itself by references and items alone. -/
def NoLoop (root : Node) : Prop :=
  ∀ node, Inside root node → ¬ Relation.TransGen (Follows root) node node

/-- The number of steps from a schema to the end of its chain. -/
inductive EndsAfter (root : Node) : Nat → Node → Prop where
  | here {node : Node} (ends : ∀ next, ¬ Follows root node next) : EndsAfter root 0 node
  | follow {length : Nat} {node next : Node} (step : Follows root node next)
      (later : EndsAfter root length next) : EndsAfter root (length + 1) node

theorem exists_endsAfter {root node last : Node}
    (chain : Relation.ReflTransGen (Follows root) node last)
    (ends : ∀ next, ¬ Follows root last next) : ∃ length, EndsAfter root length node := by
  induction chain using Relation.ReflTransGen.head_induction_on with
  | refl => exact ⟨0, .here ends⟩
  | head step _ ih =>
    obtain ⟨length, later⟩ := ih
    exact ⟨length + 1, .follow step later⟩

theorem EndsAfter.not_loop {root node : Node} {length : Nat} (ending : EndsAfter root length node) :
    ¬ Relation.TransGen (Follows root) node node := by
  induction ending with
  | here ends =>
    intro loop
    obtain ⟨next, step, -⟩ := Relation.TransGen.head'_iff.mp loop
    exact ends next step
  | follow step later ih =>
    -- Each node leads to one node only, so the loop also goes through the next one.
    intro loop
    obtain ⟨other, also, back⟩ := Relation.TransGen.head'_iff.mp loop
    obtain rfl := step.next_eq also
    exact ih (Relation.TransGen.tail' back step)

theorem length_le_size_of_chain {document : Json.Value} {nodes : List Node}
    (chain : nodes.IsChain (Follows (root document)))
    (inside : ∀ node ∈ nodes, Inside (root document) node)
    (noLoop : ∀ node ∈ nodes, ¬ Relation.TransGen (Follows (root document)) node node) :
    nodes.length ≤ document.size := by
  have ways : nodes.Pairwise (Relation.TransGen (Follows (root document))) :=
    (chain.imp fun _ _ => Relation.TransGen.single).pairwise
  refine length_le_size inside (List.pairwise_map.mpr (ways.imp_of_mem ?_))
  intro one two first second way same
  obtain rfl := (inside one first).eq_of_position (inside two second) same
  exact noLoop one first way

theorem EndsAfter.exists_chain {root node : Node} {length : Nat}
    (ending : EndsAfter root length node) (inside : Inside root node) :
    ∃ nodes, nodes.length = length ∧ (node :: nodes).IsChain (Follows root) ∧
      ∀ other ∈ node :: nodes,
        Inside root other ∧ ¬ Relation.TransGen (Follows root) other other := by
  induction ending with
  | here ends =>
    exact ⟨[], rfl, .singleton _, by simpa using ⟨inside, (EndsAfter.here ends).not_loop⟩⟩
  | follow step later ih =>
    obtain ⟨nodes, rfl, chain, all⟩ := ih (step.inside inside)
    exact ⟨_ :: nodes, rfl, .cons_cons step chain,
      List.forall_mem_cons.mpr ⟨⟨inside, (EndsAfter.follow step later).not_loop⟩, all⟩⟩

theorem EndsAfter.lt_size {document : Json.Value} {node : Node} {length : Nat}
    (ending : EndsAfter (root document) length node) (inside : Inside (root document) node) :
    length < document.size := by
  obtain ⟨nodes, rfl, chain, all⟩ := ending.exists_chain inside
  exact length_le_size_of_chain chain (fun other member => (all other member).1)
    fun other member => (all other member).2

theorem exists_endsAfter_of_noLoop {document : Json.Value} {node : Node}
    (inside : Inside (root document) node)
    (noLoop : ∀ last, Relation.ReflTransGen (Follows (root document)) node last →
      ¬ Relation.TransGen (Follows (root document)) last last) :
    ∃ length, EndsAfter (root document) length node := by
  by_contra endless
  -- A chain that does not end can be made longer than the document.
  have longer (length : Nat) : ∃ nodes, nodes.length = length ∧
      (node :: nodes).IsChain (Follows (root document)) ∧
      ∀ other ∈ node :: nodes, Relation.ReflTransGen (Follows (root document)) node other := by
    clear noLoop inside
    induction length generalizing node with
    | zero => exact ⟨[], rfl, .singleton _, by simpa using .refl⟩
    | succ length ih =>
      obtain ⟨next, step⟩ : ∃ next, Follows (root document) node next := by
        by_contra none
        exact endless ⟨0, .here fun next step => none ⟨next, step⟩⟩
      obtain ⟨nodes, rfl, chain, all⟩ := ih fun ⟨length, later⟩ =>
        endless ⟨length + 1, .follow step later⟩
      exact ⟨next :: nodes, rfl, .cons_cons step chain,
        List.forall_mem_cons.mpr ⟨.refl, fun other member => (all other member).head step⟩⟩
  obtain ⟨nodes, same, chain, all⟩ := longer document.size
  have bound := length_le_size_of_chain chain
    (fun other member => inside_of_chain (all other member) inside)
    fun other member => noLoop other (all other member)
  rw [List.length_cons] at bound
  omega

theorem NoLoop.exists_endsAfter {document : Json.Value} {node : Node}
    (noLoop : NoLoop (root document)) (inside : Inside (root document) node) :
    ∃ length, EndsAfter (root document) length node :=
  exists_endsAfter_of_noLoop inside fun last chain => noLoop last (inside_of_chain chain inside)

def next? (root node : Node) : Option Node :=
  match node.reference? with
  | some link => (root.target? link).filter fun target => !Shape.isNamedTarget target
  | none => if node.kind = .array then (node.field? "items".toList).filter isObject else none

theorem next?_of_follows {root node next : Node} (step : Follows root node next) :
    next? root node = some next := by
  cases step with
  | reference refers noClass last =>
    obtain ⟨link, reference, found⟩ := refers
    rw [next?, reference, Option.filter_eq_some_iff, Shape.isNamedTarget, noClass, last]
    exact ⟨found, rfl⟩
  | items plain array found schema =>
    rw [next?, plain, if_pos array, Option.filter_eq_some_iff]
    exact ⟨found, schema⟩

def endsWithin (root : Node) : Nat → Node → Bool
  | 0, _ => false
  | steps + 1, node =>
    match next? root node with
    | some next => endsWithin root steps next
    | none => true

theorem exists_endsAfter_of_endsWithin {root node : Node} {steps : Nat}
    (ends : endsWithin root steps node = true) : ∃ length, EndsAfter root length node := by
  induction steps generalizing node with
  | zero => contradiction
  | succ steps ih =>
    by_cases last : ∀ next, ¬ Follows root node next
    · exact ⟨0, .here last⟩
    · push Not at last
      obtain ⟨next, step⟩ := last
      rw [endsWithin, next?_of_follows step] at ends
      obtain ⟨length, later⟩ := ih ends
      exact ⟨length + 1, .follow step later⟩

theorem noLoop_of_endsWithin {document : Json.Value} (steps : Nat)
    (ends : ∀ node ∈ all [] document, endsWithin (root document) steps node = true) :
    NoLoop (root document) := by
  intro node inside
  obtain ⟨length, ending⟩ := exists_endsAfter_of_endsWithin (ends node inside.mem_all)
  exact ending.not_loop

end Node

end SchemaClasses.Schema
