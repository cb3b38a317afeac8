import SchemaClasses.Proofs.Schema.Traversal
import SchemaClasses.Schema.Source

set_option autoImplicit false

namespace SchemaClasses.Schema

open Node

/-- What holds of the nodes named before any class is built. -/
structure Opening (draft : Draft) : Prop where
  queued : ∀ entry ∈ draft.pending, draft.names.nameOf? entry.node = some entry.name
  covered : ∀ node, (draft.names.nameOf? node).isSome →
    ∃ entry ∈ draft.pending, node.position = entry.node.position

namespace Opening

theorem reserve {draft : Draft} (opening : Opening draft) (base : Text) (node : Node) :
    Opening ⟨(draft.names.reserve base node).2,
      draft.pending ++ [⟨(draft.names.reserve base node).1, node⟩]⟩ where
  queued := by
    intro entry member
    rcases List.mem_append.mp member with earlier | here
    · exact draft.names.extends_reserve base node _ _ (opening.queued entry earlier)
    · obtain rfl := List.mem_singleton.mp here
      exact draft.names.nameOf?_reserve base node
  covered := by
    intro other named
    by_cases known : (draft.names.nameOf? other).isSome
    · obtain ⟨entry, listed, same⟩ := opening.covered other known
      exact ⟨entry, List.mem_append_left _ listed, same⟩
    · exact ⟨_, List.mem_append_right _ List.mem_cons_self,
        ClassNames.position_eq_of_reserve named (by simpa using known)⟩

theorem empty : Opening ⟨.empty, []⟩ where
  queued := nofun
  covered := nofun

end Opening

namespace Draft

theorem opening_define {draft : Draft} (opening : Opening draft) (fields : List (Text × Node)) :
    Opening (draft.define fields) := by
  induction fields generalizing draft with
  | nil => exact opening
  | cons field rest ih =>
    rw [define_cons]
    split
    · exact ih (opening.reserve _ field.2)
    · exact ih opening

theorem opening_start (root : Node) (rootName : Text) : Opening (start root rootName) :=
  opening_define (Opening.empty.reserve rootName root) _

theorem nodes_define (draft : Draft) (fields : List (Text × Node)) :
    (draft.define fields).pending.map NamedNode.node = draft.pending.map NamedNode.node ++
      (fields.filter fun field => field.2.isObjectSchema).map Prod.snd := by
  induction fields generalizing draft with
  | nil => simp [define]
  | cons field rest ih =>
    rw [define_cons, List.filter_cons]
    split
    · rw [ih]
      simp
    · exact ih draft

theorem nodes_start (root : Node) (rootName : Text) :
    (start root rootName).pending.map NamedNode.node = startNodes root :=
  nodes_define _ _

theorem nameOf?_root (root : Node) (rootName : Text) :
    (start root rootName).names.nameOf? root = some rootName :=
  (grants_define _ _).kept _ _ (ClassNames.empty.nameOf?_reserve rootName root)

end Draft

theorem agenda_start (document : Json.Value) (rootName : Text) :
    Agenda document [] (Draft.start (Node.root document) rootName).names
      (Draft.start (Node.root document) rootName).pending := by
  have opening := Draft.opening_start (Node.root document) rootName
  have nodes := Draft.nodes_start (Node.root document) rootName
  constructor
  · exact (Draft.grants_start _ rootName).distinct ClassNames.distinct_empty
  · exact opening.queued
  · exact nofun
  · exact List.nodup_nil
  · rw [scheduled, List.nil_append, nodes]
    exact fun _ => .of_start
  · intro node inside _ named
    obtain ⟨entry, listed, same⟩ := opening.covered node named
    rw [scheduled, List.nil_append]
    have member := List.mem_map_of_mem (f := NamedNode.node) listed
    have within := (ClassNode.of_start (nodes ▸ member)).inside
    exact inside.eq_of_position within same ▸ member
  · rw [scheduled, List.nil_append, nodes, startsIn_self]

theorem Node.Mentions.isObjectSchema {root node target : Node}
    (mentions : Mentions root node target) : target.isObjectSchema = true := by
  induction mentions with
  | inPlace declares => rw [Node.isObjectSchema, declares.properties, Bool.true_or]
  | reference _ schema => exact schema
  | follow _ _ ih => exact ih

theorem mem_built_iff {document : Json.Value} {classes : List ClassModel} {nodes : List Node}
    {names : ClassNames} (agenda : Agenda document nodes names [])
    (progress : Progress document classes nodes names) (node : Node) :
    node ∈ nodes ↔ ClassNode (Node.root document) node := by
  have built : scheduled nodes [] = nodes := by simp [scheduled]
  have starts : ∀ node ∈ startNodes (Node.root document), node ∈ nodes := by
    intro node start
    rw [← agenda.order, mem_startsIn, built] at start
    exact start.1
  constructor
  · intro member
    exact agenda.sound node (built.symm ▸ member)
  · intro classNode
    -- What a built node mentions is named, and what is named is built when the queue is empty.
    induction classNode with
    | root => exact starts _ List.mem_cons_self
    | definition listed => exact starts _ (List.mem_cons_of_mem _ listed)
    | @property owner field target key outer declared mentions ih =>
      have inside := inside_of_mem_propertyFields outer.inside declared
      have named := progress.closed owner ih (key, field) declared target
        (Shape.namedNode?_of_classNode? ((Shape.classNode?_ofProperty inside).mpr mentions))
      exact built ▸ agenda.covered target (mentions.inside inside) mentions.isObjectSchema named

/-- The classes of a document are those of a list of nodes under the names given to them. -/
structure OneClassEach (document : Json.Value) (rootName : Text) (nodes : List Node)
    (names : ClassNames) : Prop where
  modelled : classes document rootName =
    nodes.map (ClassModel.ofNode names (Node.root document))
  generated : ∀ namespaceName, generate document namespaceName rootName =
    .ok (Text.joinWith '\n' (sourceLines namespaceName
      (nodes.map (ClassModel.ofNode names (Node.root document)))))
  namesApart : ((classes document rootName).map ClassModel.name).Nodup
  nodesApart : (nodes.map position).Nodup
  complete : ∀ node, node ∈ nodes ↔ ClassNode (Node.root document) node
  first : nodes.head? = some (Node.root document)
  rootNamed : names.nameFor (Node.root document) = rootName
  definitionsInOrder : (definitionNodes (Node.root document)).Sublist nodes

theorem size_pos (document : Json.Value) : 0 < document.size := by
  cases document <;> simp [Json.Value.size, Nat.add_comm 1]

theorem exists_run_keeping (document : Json.Value) (rootName : Text) (keeps : ClassNames → Prop)
    (kept : keeps (Draft.start (Node.root document) rootName).names)
    (build : ∀ names entry, ClassNode (Node.root document) entry.node → keeps names →
      keeps (ClassModel.build (Node.root document) names entry).2.names) :
    ∃ nodes final, [Node.root document] <+: nodes ∧ keeps final ∧ Agenda document nodes final [] ∧
      Progress document (classes document rootName) nodes final := by
  have agenda := agenda_start document rootName
  have nodes := Draft.nodes_start (Node.root document) rootName
  -- The first step is made by hand: from then on the run keeps the root in front.
  have progress : Progress document [] [] (Draft.start (Node.root document) rootName).names :=
    ⟨fun _ _ => rfl, nofun⟩
  obtain ⟨steps, enough⟩ : ∃ steps, document.size = steps + 1 :=
    ⟨document.size - 1, by have := size_pos document; omega⟩
  rw [classes, enough, ClassModel.buildAll]
  generalize (Draft.start (Node.root document) rootName).pending = pending at agenda nodes
  cases pending with
  | nil => contradiction
  | cons entry rest =>
    have root : entry.node = Node.root document := (List.cons.inj nodes).1
    have left : document.size ≤ ([] ++ [entry.node]).length + steps := by
      rw [enough, Nat.add_comm]
      exact Nat.le_refl _
    obtain ⟨nodes, final, begins, still, done, complete⟩ :=
      (agenda.build List.not_mem_nil).run (agenda.progress_build progress) left
        (build _ entry (root ▸ .root) kept) build
    exact ⟨nodes, final, root ▸ begins, still, done, complete⟩

theorem exists_run (document : Json.Value) (rootName : Text) :
    ∃ nodes final, [Node.root document] <+: nodes ∧
      (Draft.start (Node.root document) rootName).names.Extends final ∧
      Agenda document nodes final [] ∧
      Progress document (classes document rootName) nodes final :=
  exists_run_keeping document rootName (Draft.start (Node.root document) rootName).names.Extends
    (.refl _) fun _ _ _ more => more.trans (ClassModel.extends_build _ _ _)

structure Emits (document : Json.Value) (rootName : Text) (nodes : List Node)
    (names : ClassNames) : Prop where
  source : ∀ namespaceName, generate document namespaceName rootName =
    .ok (Text.joinWith '\n' (sourceLines namespaceName (classes document rootName)))
  models : classes document rootName =
    nodes.map (ClassModel.ofNode names (Node.root document))
  complete : ∀ node, node ∈ nodes ↔ ClassNode (Node.root document) node
  rootNamed : names.nameFor (Node.root document) = rootName
  apart : ∀ one ∈ nodes, ∀ two ∈ nodes, names.nameFor one = names.nameFor two → one = two

/-- A traversal that is done, with the nodes whose classes are built and the names given. -/
structure Finished (document : Json.Value) (rootName : Text) (nodes : List Node)
    (names : ClassNames) : Prop where
  more : (Draft.start (Node.root document) rootName).names.Extends names
  agenda : Agenda document nodes names []
  progress : Progress document (classes document rootName) nodes names

theorem exists_finished (document : Json.Value) (rootName : Text) :
    ∃ nodes names, Finished document rootName nodes names := by
  obtain ⟨nodes, names, -, more, agenda, progress⟩ := exists_run document rootName
  exact ⟨nodes, names, more, agenda, progress⟩

theorem exists_ofField {document : Json.Value} {rootName : Text} {model : ClassModel}
    {property : PropertyModel} (listed : model ∈ classes document rootName)
    (member : property ∈ model.properties) : ∃ names owner field,
      property = PropertyModel.ofField names (Node.root document) owner field := by
  obtain ⟨nodes, names, finished⟩ := exists_finished document rootName
  rw [finished.progress.models names (.refl names)] at listed
  obtain ⟨owner, -, rfl⟩ := List.mem_map.mp listed
  obtain ⟨field, -, rfl⟩ := List.mem_map.mp member
  exact ⟨names, owner, field, rfl⟩

namespace Finished

variable {document : Json.Value} {rootName : Text} {nodes : List Node} {names : ClassNames}

theorem emits (finished : Finished document rootName nodes names)
    (object : document.isObject = true) : Emits document rootName nodes names where
  source := fun namespaceName => by rw [generate, if_pos object]
  models := finished.progress.models names (.refl names)
  complete := mem_built_iff finished.agenda finished.progress
  rootNamed := ClassNames.nameFor_eq (finished.more _ _ (Draft.nameOf?_root _ rootName))
  apart := fun one first two second =>
    finished.agenda.eq_of_nameFor (finished.agenda.inside (List.mem_append_left _ first))
      (finished.agenda.inside (List.mem_append_left _ second)) (finished.agenda.named one first)
      (finished.agenda.named two second)

theorem named (finished : Finished document rootName nodes names) {owner node : Node}
    {field : Text × Node} (member : owner ∈ nodes) (declared : field ∈ owner.propertyFields)
    (stands : (PropertyModel.shapeOf (Node.root document) field).namedNode? = some node) :
    Inside (Node.root document) node ∧ names.nameOf? node = some (names.nameFor node) := by
  have outer := finished.agenda.sound owner (List.mem_append_left _ member)
  obtain ⟨name, found⟩ := Option.isSome_iff_exists.mp
    (finished.progress.closed owner member field declared node stands)
  exact ⟨(Agenda.admits_shapeOf outer declared).inside stands,
    by rw [ClassNames.nameFor_eq found, found]⟩

end Finished

theorem one_class_each (document : Json.Value) (rootName : Text)
    (object : document.isObject = true) :
    ∃ nodes names, OneClassEach document rootName nodes names := by
  obtain ⟨nodes, names, begins, more, agenda, progress⟩ := exists_run document rootName
  have models := progress.models names (.refl names)
  have inside : ∀ node ∈ nodes, Inside (Node.root document) node := fun node member =>
    ((mem_built_iff agenda progress node).mp member).inside
  refine ⟨nodes, names, ?_⟩
  constructor
  case modelled => exact models
  case generated =>
    intro namespaceName
    rw [generate, if_pos object, models]
  case namesApart =>
    rw [models, List.map_map]
    refine List.Nodup.map_on ?_ (agenda.once.of_map _)
    intro one first two second same
    obtain ⟨name, found⟩ := Option.isSome_iff_exists.mp (agenda.named one first)
    obtain ⟨other, also⟩ := Option.isSome_iff_exists.mp (agenda.named two second)
    have same : name = other :=
      (ClassNames.nameFor_eq found).symm.trans (same.trans (ClassNames.nameFor_eq also))
    exact (inside one first).eq_of_position (inside two second)
      (agenda.distinct.position_eq found (same ▸ also))
  case nodesApart => exact agenda.once
  case complete => exact mem_built_iff agenda progress
  case first =>
    obtain ⟨later, rfl⟩ := begins
    rfl
  case rootNamed => exact ClassNames.nameFor_eq (more _ _ (Draft.nameOf?_root _ rootName))
  case definitionsInOrder =>
    have starts : (startNodes (Node.root document)).Sublist (scheduled nodes []) := by
      rw [← agenda.order]
      exact List.filter_sublist
    rw [scheduled, List.map_nil, List.append_nil] at starts
    exact (List.sublist_cons_self _ _).trans starts

def sharedDefinition : Json.Value :=
  .object [
    ("properties".toList, .object [
      ("entry".toList, .object [("properties".toList, .object [])]),
      ("first".toList, .object [("$ref".toList, .string "#/definitions/entry".toList)]),
      ("others".toList, .object [
        ("type".toList, .string "array".toList),
        ("items".toList, .object [("$ref".toList, .string "#/definitions/entry".toList)])])]),
    ("definitions".toList, .object [
      ("entry".toList, .object [
        ("properties".toList, .object [
          ("next".toList, .object [("$ref".toList, .string "#/definitions/entry".toList)])])])])]

theorem one_class_each_of_shared : sharedDefinition.isObject = true ∧
    ∃ nodes names, OneClassEach sharedDefinition "Chain".toList nodes names :=
  ⟨rfl, one_class_each sharedDefinition "Chain".toList rfl⟩

example : (classes sharedDefinition "Chain".toList).map ClassModel.name =
    ["Chain".toList, "Entry2".toList, "Entry".toList] := by decide

end SchemaClasses.Schema
