import SchemaClasses.Proofs.Schema.ClassNodes
import SchemaClasses.Proofs.Schema.Resolution

set_option autoImplicit false

/-!
The order in which classes are built. At every moment the nodes that are built and those in the queue
are class nodes, have names, and cover all class nodes with names (`Agenda`). Naming a node keeps that,
and so does building the next one (`Agenda.build`).
-/

namespace SchemaClasses.Schema

open Node

open scoped Classical in
noncomputable def startsIn (root : Node) (nodes : List Node) : List Node :=
  nodes.filter fun node => node ∈ startNodes root

theorem startsIn_append (root : Node) (first second : List Node) :
    startsIn root (first ++ second) = startsIn root first ++ startsIn root second :=
  List.filter_append ..

theorem startsIn_cons_of_notMem {root node : Node} (later : node ∉ startNodes root)
    (rest : List Node) : startsIn root (node :: rest) = startsIn root rest := by
  simp [startsIn, later]

theorem mem_startsIn {root node : Node} {nodes : List Node} :
    node ∈ startsIn root nodes ↔ node ∈ nodes ∧ node ∈ startNodes root := by
  simp [startsIn]

theorem startsIn_self (root : Node) : startsIn root (startNodes root) = startNodes root := by
  simp [startsIn]

def scheduled (built : List Node) (queue : List NamedNode) : List Node :=
  built ++ queue.map NamedNode.node

/-- What holds of the nodes built and queued while the names are as given. -/
structure Agenda (document : Json.Value) (built : List Node) (names : ClassNames)
    (queue : List NamedNode) : Prop where
  distinct : names.Distinct
  queued : ∀ entry ∈ queue, names.nameOf? entry.node = some entry.name
  named : ∀ node ∈ built, (names.nameOf? node).isSome
  once : (built.map position).Nodup
  sound : ∀ node ∈ scheduled built queue, ClassNode (Node.root document) node
  covered : ∀ node, Inside (Node.root document) node → node.isObjectSchema = true →
    (names.nameOf? node).isSome → node ∈ scheduled built queue
  order : startsIn (Node.root document) (scheduled built queue) = startNodes (Node.root document)

namespace Agenda

variable {document : Json.Value} {built : List Node} {names : ClassNames}
  {queue before after : List NamedNode} {entry : NamedNode} {node : Node}

theorem inside (agenda : Agenda document built names queue) (member : node ∈ scheduled built queue) :
    Inside (Node.root document) node :=
  (agenda.sound node member).inside

theorem start_named (agenda : Agenda document built names queue)
    (start : node ∈ startNodes (Node.root document)) : (names.nameOf? node).isSome := by
  rw [← agenda.order, mem_startsIn] at start
  rcases List.mem_append.mp start.1 with earlier | later
  · exact agenda.named node earlier
  · obtain ⟨entry, listed, rfl⟩ := List.mem_map.mp later
    exact Option.isSome_of_mem (agenda.queued entry listed)

theorem eq_of_nameFor {first second : Node} (agenda : Agenda document built names queue)
    (one : Inside (Node.root document) first) (two : Inside (Node.root document) second)
    (firstNamed : (names.nameOf? first).isSome) (secondNamed : (names.nameOf? second).isSome)
    (same : names.nameFor first = names.nameFor second) : first = second := by
  obtain ⟨name, found⟩ := Option.isSome_iff_exists.mp firstNamed
  obtain ⟨other, also⟩ := Option.isSome_iff_exists.mp secondNamed
  rw [ClassNames.nameFor_eq found, ClassNames.nameFor_eq also] at same
  exact one.eq_of_position two (agenda.distinct.position_eq found (same ▸ also))

theorem scheduled_insert (built : List Node) (before after : List NamedNode) (entry : NamedNode) :
    scheduled built (before ++ entry :: after) =
      built ++ before.map NamedNode.node ++ entry.node :: after.map NamedNode.node := by
  simp [scheduled]

theorem mem_scheduled_insert : node ∈ scheduled built (before ++ entry :: after) ↔
    node = entry.node ∨ node ∈ scheduled built (before ++ after) := by
  simp only [scheduled, List.map_append, List.map_cons, List.mem_append, List.mem_cons]
  tauto

theorem entry_mem_scheduled : entry.node ∈ scheduled built (entry :: queue) := by
  simp [scheduled]

theorem insert (agenda : Agenda document built names (before ++ after)) (base : Text)
    (classNode : ClassNode (Node.root document) node)
    (later : node ∉ startNodes (Node.root document)) :
    Agenda document built (names.reserve base node).2
      (before ++ ⟨(names.reserve base node).1, node⟩ :: after) where
  distinct := agenda.distinct.reserve base node
  queued := by
    intro entry member
    rw [List.mem_append, List.mem_cons, or_left_comm, ← List.mem_append] at member
    rcases member with rfl | earlier
    · exact names.nameOf?_reserve base node
    · exact names.extends_reserve base node _ _ (agenda.queued entry earlier)
  named := fun other member => (names.extends_reserve base node).isSome (agenda.named other member)
  once := agenda.once
  sound := by
    intro other member
    rcases mem_scheduled_insert.mp member with rfl | earlier
    · exact classNode
    · exact agenda.sound other earlier
  covered := by
    intro other inside schema isNamed
    rw [mem_scheduled_insert]
    by_cases known : (names.nameOf? other).isSome
    · exact .inr (agenda.covered other inside schema known)
    · have same := ClassNames.position_eq_of_reserve isNamed (by simpa using known)
      exact .inl (inside.eq_of_position classNode.inside same)
  -- The new node is no start, so the starts stay in their order wherever it is put.
  order := by
    rw [scheduled_insert, startsIn_append, startsIn_cons_of_notMem later, ← startsIn_append,
      List.append_assoc, ← List.map_append]
    exact agenda.order

theorem name (agenda : Agenda document built names queue) (base : Text)
    (inside : Inside (Node.root document) node) (noClass : node.isObjectSchema = false) :
    Agenda document built (names.reserve base node).2 queue :=
  { agenda with
    distinct := agenda.distinct.reserve base node
    queued := fun entry member => names.extends_reserve base node _ _ (agenda.queued entry member)
    named := fun other member =>
      (names.extends_reserve base node).isSome (agenda.named other member)
    covered := by
      intro other within schema isNamed
      by_cases known : (names.nameOf? other).isSome
      · exact agenda.covered other within schema known
      · have same := ClassNames.position_eq_of_reserve isNamed (by simpa using known)
        obtain rfl := within.eq_of_position inside same
        rw [noClass] at schema
        contradiction }

theorem take (agenda : Agenda document built names (entry :: queue)) (new : entry.node ∉ built) :
    Agenda document (built ++ [entry.node]) names queue := by
  have same : scheduled (built ++ [entry.node]) queue = scheduled built (entry :: queue) := by
    simp [scheduled]
  constructor
  · exact agenda.distinct
  · exact fun other member => agenda.queued other (List.mem_cons_of_mem _ member)
  · intro node member
    rcases List.mem_append.mp member with earlier | here
    · exact agenda.named node earlier
    · obtain rfl := List.mem_singleton.mp here
      exact Option.isSome_of_mem (agenda.queued entry List.mem_cons_self)
  · have fresh : entry.node.position ∉ built.map position := by
      intro member
      obtain ⟨node, listed, place⟩ := List.mem_map.mp member
      have within := agenda.inside (List.mem_append_left _ listed)
      have inside := agenda.inside entry_mem_scheduled
      exact new (within.eq_of_position inside place ▸ listed)
    rw [List.map_append]
    exact List.concat_eq_append ▸ agenda.once.concat fresh
  · rw [same]
    exact agenda.sound
  · rw [same]
    exact agenda.covered
  · rw [same]
    exact agenda.order

theorem drop (agenda : Agenda document built names (entry :: queue)) (done : entry.node ∈ built) :
    Agenda document built names queue := by
  have listed : ∀ node, node ∈ scheduled built (entry :: queue) ↔ node ∈ scheduled built queue := by
    intro node
    have insertion : node ∈ scheduled built ([] ++ entry :: queue) ↔
        node = entry.node ∨ node ∈ scheduled built ([] ++ queue) := mem_scheduled_insert
    rw [List.nil_append, List.nil_append] at insertion
    rw [insertion]
    constructor
    · rintro (rfl | member)
      · exact List.mem_append_left _ done
      · exact member
    · exact .inr
  -- A start would then be scheduled twice, but the starts are scheduled once each.
  have notStart : entry.node ∉ startNodes (Node.root document) := by
    intro start
    have once : (startNodes (Node.root document)).Nodup := (startNodes_distinct document).of_map _
    rw [← agenda.order, scheduled, startsIn_append] at once
    refine (List.nodup_append.mp once).2.2 entry.node ?_ entry.node ?_ rfl
    · exact mem_startsIn.mpr ⟨done, start⟩
    · exact mem_startsIn.mpr ⟨List.mem_cons_self, start⟩
  constructor
  · exact agenda.distinct
  · exact fun other member => agenda.queued other (List.mem_cons_of_mem _ member)
  · exact agenda.named
  · exact agenda.once
  · exact fun node member => agenda.sound node ((listed node).mpr member)
  · exact fun node inside schema isNamed =>
      (listed node).mp (agenda.covered node inside schema isNamed)
  · rw [← agenda.order, scheduled, scheduled, startsIn_append, startsIn_append, List.map_cons,
      startsIn_cons_of_notMem notStart]

def Admits (document : Json.Value) : Shape → Prop
  | .inlineClass _ node =>
    ClassNode (Node.root document) node ∧ node ∉ startNodes (Node.root document)
  | .reference _ target => Inside (Node.root document) target ∧
    (target.isObjectSchema = true → ClassNode (Node.root document) target)
  | .list item => Admits document item
  | .scalar _ | .unresolved _ => True

theorem Admits.inside {shape : Shape} (admitted : Admits document shape)
    (stands : shape.namedNode? = some node) : Inside (Node.root document) node := by
  induction shape with
  | scalar | unresolved => contradiction
  | list item ih => exact ih admitted stands
  | inlineClass base other =>
    obtain rfl := Option.some.inj stands
    exact admitted.1.inside
  | reference base other =>
    obtain rfl := Option.some.inj stands
    exact admitted.1

theorem resolve {draft : Draft} {shape : Shape} (owner : Node) (admitted : Admits document shape)
    (agenda : Agenda document built draft.names (draft.pending ++ after)) :
    Agenda document built (draft.resolve owner shape).2.names
      ((draft.resolve owner shape).2.pending ++ after) := by
  induction shape with
  | scalar | unresolved => exact agenda
  | list item ih => exact ih admitted
  | inlineClass base node =>
    have inserted := agenda.insert base admitted.1 admitted.2
    simpa [Draft.resolve, Draft.inlineClass] using inserted
  | reference base target =>
    simp only [Draft.resolve, Draft.reference]
    cases known : draft.names.nameOf? target with
    | some name => simpa [ClassNames.reserve_of_some base known] using agenda
    | none =>
      cases schema : target.isObjectSchema with
      | true =>
        -- All starts have had their names from the beginning.
        have later : target ∉ startNodes (Node.root document) := by
          intro start
          simpa [known] using agenda.start_named start
        simpa using agenda.insert base (admitted.2 schema) later
      | false => simpa using agenda.name base admitted.1 schema

theorem admits_of_leaf {shape : Shape} (admitted : Admits document shape.leaf) :
    Admits document shape := by
  induction shape with
  | list item ih => exact ih admitted
  | scalar | inlineClass | reference | unresolved => exact admitted

theorem admits_shapeOf {owner : Node} {field : Text × Node}
    (outer : ClassNode (Node.root document) owner) (declared : field ∈ owner.propertyFields) :
    Admits document (PropertyModel.shapeOf (Node.root document) field) := by
  obtain ⟨key, child⟩ := field
  have inside := inside_of_mem_propertyFields outer.inside declared
  have mentioned : ∀ node, (PropertyModel.shapeOf (Node.root document) (key, child)).classNode? =
      some node → ClassNode (Node.root document) node := fun node found =>
    .property outer declared (Shape.mentions_of_classNode? found)
  apply admits_of_leaf
  rw [← Shape.classNode?_leaf] at mentioned
  cases leaf : (PropertyModel.shapeOf (Node.root document) (key, child)).leaf with
  | scalar | unresolved => trivial
  | list item => exact absurd leaf (Shape.leaf_ne_list _ item)
  | inlineClass base node =>
    rw [leaf] at mentioned
    have apart := apart_of_mem_propertyFields outer.inside declared
    exact ⟨mentioned node rfl, apart.not_start inside leaf⟩
  | reference base target =>
    rw [leaf] at mentioned
    obtain ⟨last, chain, refers, named⟩ := Shape.exists_last_of_reference leaf
    exact ⟨refers.inside, fun schema => mentioned target (if_pos schema)⟩

theorem collect {draft : Draft} {owner : Node} {fields : List (Text × Node)}
    (outer : ClassNode (Node.root document) owner) (declared : fields ⊆ owner.propertyFields)
    (agenda : Agenda document built draft.names (draft.pending ++ after)) :
    Agenda document built
      (PropertyModel.collect (Node.root document) owner draft fields).2.names
      ((PropertyModel.collect (Node.root document) owner draft fields).2.pending ++ after) := by
  induction fields generalizing draft with
  | nil => exact agenda
  | cons field rest ih =>
    rw [PropertyModel.collect_cons]
    obtain ⟨here, later⟩ := List.cons_subset.mp declared
    exact ih later (agenda.resolve owner (admits_shapeOf outer here))

end Agenda

/-- What the classes built so far have to do with the nodes built so far. -/
structure Progress (document : Json.Value) (classes : List ClassModel) (built : List Node)
    (names : ClassNames) : Prop where
  models : ∀ later, names.Extends later →
    classes = built.map (ClassModel.ofNode later (Node.root document))
  closed : ∀ owner ∈ built, ∀ field ∈ owner.propertyFields, ∀ node,
    (PropertyModel.shapeOf (Node.root document) field).namedNode? = some node →
      (names.nameOf? node).isSome

namespace Agenda

variable {document : Json.Value} {built : List Node} {names : ClassNames}
  {queue : List NamedNode} {entry : NamedNode} {classes : List ClassModel}

theorem isBuilt_iff (agenda : Agenda document built names (entry :: queue))
    (progress : Progress document classes built names) :
    ClassModel.isBuilt classes entry = true ↔ entry.node ∈ built := by
  have name := agenda.queued entry List.mem_cons_self
  rw [progress.models names (.refl names), ClassModel.isBuilt, List.any_eq_true]
  -- Classes are told apart by their names only, which is enough while names are distinct.
  constructor
  · rintro ⟨model, member, same⟩
    obtain ⟨node, listed, rfl⟩ := List.mem_map.mp member
    rw [beq_iff_eq, ← ClassNames.nameFor_eq name] at same
    have within := agenda.inside (List.mem_append_left _ listed)
    have inside := agenda.inside entry_mem_scheduled
    exact agenda.eq_of_nameFor within inside (agenda.named node listed) (Option.isSome_of_mem name)
      same ▸ listed
  · intro listed
    refine ⟨_, List.mem_map_of_mem listed, ?_⟩
    rw [beq_iff_eq]
    exact ClassNames.nameFor_eq name

theorem build (agenda : Agenda document built names (entry :: queue)) (new : entry.node ∉ built) :
    Agenda document (built ++ [entry.node])
      (ClassModel.build (Node.root document) names entry).2.names
      ((ClassModel.build (Node.root document) names entry).2.pending ++ queue) := by
  have outer : ClassNode (Node.root document) entry.node :=
    agenda.sound entry.node entry_mem_scheduled
  have taken : Agenda document (built ++ [entry.node]) (Draft.mk names []).names
      ((Draft.mk names []).pending ++ queue) := agenda.take new
  exact taken.collect outer (List.Subset.refl _)

theorem progress_build (agenda : Agenda document built names (entry :: queue))
    (progress : Progress document classes built names) :
    Progress document (classes ++ [(ClassModel.build (Node.root document) names entry).1])
      (built ++ [entry.node]) (ClassModel.build (Node.root document) names entry).2.names := by
  have name := agenda.queued entry List.mem_cons_self
  have extended := ClassModel.extends_build (Node.root document) names entry
  constructor
  · intro later more
    rw [List.map_append, ← progress.models later (extended.trans more),
      ClassModel.build_eq name more]
    rfl
  · intro owner member field declared node stands
    rcases List.mem_append.mp member with earlier | here
    · exact extended.isSome (progress.closed owner earlier field declared node stands)
    · obtain rfl := List.mem_singleton.mp here
      exact PropertyModel.named_of_collect declared stands

theorem skip (agenda : Agenda document built names queue)
    (progress : Progress document classes built names) :
    Agenda document built names (queue.dropWhile (ClassModel.isBuilt classes)) := by
  induction queue with
  | nil => exact agenda
  | cons entry rest ih =>
    rw [List.dropWhile_cons]
    split
    · rename_i done
      exact ih (agenda.drop ((agenda.isBuilt_iff progress).mp done))
    · exact agenda

theorem notMem_of_dropWhile {pending rest : List NamedNode}
    (agenda : Agenda document built names (entry :: rest))
    (progress : Progress document classes built names)
    (left : pending.dropWhile (ClassModel.isBuilt classes) = entry :: rest) :
    entry.node ∉ built := by
  intro done
  have stops := List.head?_dropWhile_not (ClassModel.isBuilt classes) pending
  rw [left] at stops
  exact Bool.false_ne_true (stops.symm.trans ((agenda.isBuilt_iff progress).mpr done))

theorem length_built_le (agenda : Agenda document built names queue) :
    built.length ≤ document.size :=
  length_le_size (fun _ member => agenda.inside (List.mem_append_left _ member)) agenda.once

theorem run {steps : Nat} {keeps : ClassNames → Prop} (agenda : Agenda document built names queue)
    (progress : Progress document classes built names)
    (enough : document.size ≤ built.length + steps) (kept : keeps names)
    (build : ∀ names entry, ClassNode (Node.root document) entry.node → keeps names →
      keeps (ClassModel.build (Node.root document) names entry).2.names) :
    ∃ nodes final, built <+: nodes ∧ keeps final ∧ Agenda document nodes final [] ∧
      Progress document (ClassModel.buildAll (Node.root document) steps names classes queue)
        nodes final := by
  induction steps generalizing built names classes queue with
  | zero =>
    have skipped := agenda.skip progress
    cases left : queue.dropWhile (ClassModel.isBuilt classes) with
    | nil => exact ⟨built, names, List.prefix_rfl, kept, left ▸ skipped, progress⟩
    | cons entry rest =>
      rw [left] at skipped
      -- One more class would be one more than there are nodes.
      have new := skipped.notMem_of_dropWhile progress left
      have bound := (skipped.build new).length_built_le
      rw [List.length_append, List.length_singleton] at bound
      omega
  | succ steps ih =>
    have skipped := agenda.skip progress
    rw [ClassModel.buildAll]
    cases left : queue.dropWhile (ClassModel.isBuilt classes) with
    | nil => exact ⟨built, names, List.prefix_rfl, kept, left ▸ skipped, progress⟩
    | cons entry rest =>
      rw [left] at skipped
      have new := skipped.notMem_of_dropWhile progress left
      have left : document.size ≤ (built ++ [entry.node]).length + steps := by
        rw [List.length_append, List.length_singleton]
        omega
      have outer := skipped.sound entry.node entry_mem_scheduled
      obtain ⟨nodes, final, begins, still, done, complete⟩ := ih (skipped.build new)
        (skipped.progress_build progress) left (build names entry outer kept)
      exact ⟨nodes, final, (List.prefix_append built [entry.node]).trans begins, still, done,
        complete⟩

end Agenda

end SchemaClasses.Schema
