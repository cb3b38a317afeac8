import SchemaClasses.Proofs.Schema.OneClassEach

set_option autoImplicit false

namespace SchemaClasses.Schema

open Node

namespace ClassNames

variable {names others : ClassNames}

theorem isTaken_congr (same : names.taken = others.taken) (name : Text) :
    names.isTaken name = others.isTaken name := by
  rw [Bool.eq_iff_iff, isTaken_iff, isTaken_iff, same]

theorem free_congr (same : names.taken = others.taken) (base : Text) :
    names.free base = others.free base := by
  have length : names.reserved.length = others.reserved.length := by
    simpa [taken] using congrArg List.length same
  unfold free
  simp only [isTaken_congr same, length]

theorem reserve_new_congr {one two : Node} (same : names.taken = others.taken) (base : Text)
    (oneNew : names.nameOf? one = none) (twoNew : others.nameOf? two = none) :
    (names.reserve base one).1 = (others.reserve base two).1 ∧
      (names.reserve base one).2.taken = (others.reserve base two).2.taken := by
  rw [reserve_of_none base oneNew, reserve_of_none base twoNew, free_congr same]
  exact ⟨rfl, by simp only [taken, List.map_append] at same ⊢; rw [same]; rfl⟩

theorem reserve_empty_congr (base : Text) (one two : Node) :
    (empty.reserve base one).1 = (empty.reserve base two).1 ∧
      (empty.reserve base one).2.taken = (empty.reserve base two).2.taken :=
  reserve_new_congr rfl base rfl rfl

theorem nameOf?_reserve_eq_none {node other : Node} (base : Text)
    (new : names.nameOf? other = none) (apart : other.position ≠ node.position) :
    (names.reserve base node).2.nameOf? other = none := by
  by_contra named
  exact apart (position_eq_of_reserve (Option.isSome_iff_ne_none.mpr named) new)

end ClassNames

def objectFields (fields : List (Text × Node)) : List (Text × Node) :=
  fields.filter fun field => field.2.isObjectSchema

theorem objectFields_cons (field : Text × Node) (fields : List (Text × Node)) :
    objectFields (field :: fields) =
      if field.2.isObjectSchema then field :: objectFields fields else objectFields fields :=
  List.filter_cons

def outline (fields : List (Text × Node)) : List (Text × Bool) :=
  fields.map fun field => (field.1, field.2.isObjectSchema)

namespace Draft

/-- Two drafts in which the same names are given in the same order. -/
structure InStep (one two : Draft) : Prop where
  taken : one.names.taken = two.names.taken
  pending : one.pending.map NamedNode.name = two.pending.map NamedNode.name

structure Awaits (draft : Draft) (fields : List (Text × Node)) : Prop where
  new : ∀ field ∈ objectFields fields, draft.names.nameOf? field.2 = none
  apart : ((objectFields fields).map fun field => field.2.position).Nodup

variable {one two : Draft} {field : Text × Node} {fields others : List (Text × Node)}

theorem Awaits.reserve (awaits : Awaits one (field :: fields))
    (schema : field.2.isObjectSchema = true) (base : Text) (pending : List NamedNode) :
    Awaits ⟨(one.names.reserve base field.2).2, pending⟩ fields := by
  obtain ⟨new, apart⟩ := awaits
  rw [objectFields_cons, if_pos schema] at new apart
  obtain ⟨first, rest⟩ := List.nodup_cons.mp apart
  refine ⟨fun other member => ?_, rest⟩
  refine ClassNames.nameOf?_reserve_eq_none base (new other (List.mem_cons_of_mem _ member)) ?_
  exact fun same => first (List.mem_map.mpr ⟨other, member, same⟩)

theorem Awaits.skip (awaits : Awaits one (field :: fields))
    (noSchema : ¬ field.2.isObjectSchema = true) : Awaits one fields := by
  obtain ⟨new, apart⟩ := awaits
  rw [objectFields_cons, if_neg noSchema] at new apart
  exact ⟨new, apart⟩

theorem InStep.define (inStep : InStep one two) (same : outline fields = outline others)
    (first : Awaits one fields) (second : Awaits two others) :
    InStep (one.define fields) (two.define others) := by
  induction fields generalizing one two others with
  | nil =>
    obtain rfl := List.map_eq_nil_iff.mp same.symm
    exact inStep
  | cons field rest ih =>
    obtain ⟨other, later, rfl, pair, tail⟩ := List.map_eq_cons_iff.mp same.symm
    obtain ⟨keys, kinds⟩ := Prod.mk.inj pair
    rw [define_cons, define_cons, kinds, keys]
    by_cases schema : field.2.isObjectSchema = true
    · have also : other.2.isObjectSchema = true := kinds.trans schema
      have firstNew := first.new field (by simp [objectFields_cons, schema])
      have secondNew := second.new other (by simp [objectFields_cons, also])
      obtain ⟨name, taken⟩ := ClassNames.reserve_new_congr inStep.taken
        (Naming.pascalCase field.1) firstNew secondNew
      rw [if_pos schema, if_pos schema]
      refine ih ⟨taken, ?_⟩ tail.symm (first.reserve schema _ _) (second.reserve also _ _)
      rw [List.map_append, List.map_append, inStep.pending, List.map_singleton, List.map_singleton,
        name]
    · have also : ¬ other.2.isObjectSchema = true := fun given => schema (kinds.symm.trans given)
      rw [if_neg schema, if_neg schema]
      exact ih inStep tail.symm (first.skip schema) (second.skip also)

end Draft

structure SameDefinitions (one two : Json.Value) : Prop where
  definitions : outline (Draft.sectionFields (Node.root one) "definitions".toList) =
    outline (Draft.sectionFields (Node.root two) "definitions".toList)
  defs : outline (Draft.sectionFields (Node.root one) "$defs".toList) =
    outline (Draft.sectionFields (Node.root two) "$defs".toList)

variable {one two : Json.Value} {names others : ClassNames} {rootName : Text}

namespace Draft

theorem awaits_start (document : Json.Value) (rootName : Text) (pending : List NamedNode) :
    Awaits ⟨(ClassNames.empty.reserve rootName (Node.root document)).2, pending⟩
      (sectionFields (Node.root document) "definitions".toList ++
        sectionFields (Node.root document) "$defs".toList) := by
  have distinct := startNodes_distinct document
  rw [startNodes, List.map_cons, definitionNodes, List.map_map, List.nodup_cons] at distinct
  obtain ⟨noRoot, apart⟩ := distinct
  refine ⟨fun field member => ClassNames.nameOf?_reserve_eq_none rootName rfl ?_, apart⟩
  exact fun same => noRoot (List.mem_map.mpr ⟨field, member, same⟩)

theorem inStep_start (same : SameDefinitions one two) (rootName : Text) :
    InStep (start (Node.root one) rootName) (start (Node.root two) rootName) := by
  obtain ⟨name, taken⟩ :=
    ClassNames.reserve_empty_congr rootName (Node.root one) (Node.root two)
  refine InStep.define ⟨taken, congrArg (fun name => [name]) name⟩ ?_ (awaits_start one rootName _)
    (awaits_start two rootName _)
  rw [outline, outline, List.map_append, List.map_append]
  exact congrArg₂ _ same.definitions same.defs

theorem nameFor_startNodes {root : Node} (more : (start root rootName).names.Extends names) :
    (startNodes root).map names.nameFor = (start root rootName).pending.map NamedNode.name := by
  rw [← nodes_start root rootName, List.map_map]
  refine List.map_congr_left fun entry member => ?_
  exact ClassNames.nameFor_eq (more _ _ ((opening_start root rootName).queued entry member))

end Draft

theorem startNames_agree (same : SameDefinitions one two)
    (more : (Draft.start (Node.root one) rootName).names.Extends names)
    (also : (Draft.start (Node.root two) rootName).names.Extends others) :
    (startNodes (Node.root one)).map names.nameFor =
      (startNodes (Node.root two)).map others.nameFor := by
  rw [Draft.nameFor_startNodes more, Draft.nameFor_startNodes also,
    (Draft.inStep_start same rootName).pending]

def namedFields (names : ClassNames) (fields : List (Text × Node)) : List (Text × Text) :=
  (objectFields fields).map fun field => (field.1, names.nameFor field.2)

theorem keys_objectFields {fields others : List (Text × Node)}
    (same : outline fields = outline others) :
    (objectFields fields).map Prod.fst = (objectFields others).map Prod.fst := by
  have kept (fields : List (Text × Node)) : (objectFields fields).map Prod.fst =
      ((outline fields).filter Prod.snd).map Prod.fst := by
    rw [outline, List.filter_map, List.map_map]
    rfl
  rw [kept, kept, same]

theorem namedFields_eq {fields otherFields : List (Text × Node)}
    (same : outline fields = outline otherFields)
    (agree : (objectFields fields).map (fun field => names.nameFor field.2) =
      (objectFields otherFields).map fun field => others.nameFor field.2) :
    namedFields names fields = namedFields others otherFields := by
  rw [namedFields, ← List.zip_map', keys_objectFields same, agree, List.zip_map', namedFields]

/-- The classes of a document, and no class but the root and the definitions has a name of these. -/
structure KeepsNames (document : Json.Value) (rootName : Text) (nodes : List Node)
    (names : ClassNames) : Prop extends Emits document rootName nodes names where
  kept : ∀ node ∈ nodes, node ∉ startNodes (Node.root document) →
    names.nameFor node ∉ (startNodes (Node.root document)).map names.nameFor

theorem keepsNames_of_emits {document : Json.Value} {nodes : List Node}
    (emits : Emits document rootName nodes names) : KeepsNames document rootName nodes names := by
  refine ⟨emits, fun node member noStart named => ?_⟩
  obtain ⟨start, listed, same⟩ := List.mem_map.mp named
  have built : start ∈ nodes := (emits.complete start).mpr (.of_start listed)
  exact noStart (emits.apart start built node member same ▸ listed)

theorem definitions_keep_names (one two : Json.Value) (rootName : Text)
    (first : one.isObject = true) (second : two.isObject = true) (same : SameDefinitions one two) :
    ∃ nodes names others otherNames,
      KeepsNames one rootName nodes names ∧ KeepsNames two rootName others otherNames ∧
      ∀ group ∈ ["definitions".toList, "$defs".toList],
        namedFields names (Draft.sectionFields (Node.root one) group) =
          namedFields otherNames (Draft.sectionFields (Node.root two) group) := by
  obtain ⟨nodes, names, finished⟩ := exists_finished one rootName
  obtain ⟨others, otherNames, otherFinished⟩ := exists_finished two rootName
  refine ⟨nodes, names, others, otherNames, keepsNames_of_emits (finished.emits first),
    keepsNames_of_emits (otherFinished.emits second), ?_⟩
  -- The names of both sections stand in one list, which is cut where the first section ends.
  have agree := (List.cons.inj (startNames_agree same finished.more otherFinished.more)).2
  rw [definitionNodes, definitionNodes, List.filter_append, List.filter_append, List.map_append,
    List.map_append, List.map_append, List.map_append, List.map_map, List.map_map, List.map_map,
    List.map_map] at agree
  have long := congrArg List.length (keys_objectFields same.definitions)
  rw [List.length_map, List.length_map] at long
  obtain ⟨inDefinitions, inDefs⟩ :=
    List.append_inj agree (by rw [List.length_map, List.length_map]; exact long)
  intro group either
  rcases List.mem_cons.mp either with rfl | second
  · exact namedFields_eq same.definitions inDefinitions
  · obtain rfl := List.mem_singleton.mp second
    exact namedFields_eq same.defs inDefs

def cards : Json.Value :=
  .object [
    ("definitions".toList, .object [
      ("entry".toList, .object [("properties".toList, .object [])]),
      ("id".toList, .object [("type".toList, .string "string".toList)])]),
    ("$defs".toList, .object [
      ("Entry".toList, .object [("type".toList, .string "object".toList)])])]

def fullCards : Json.Value :=
  .object [
    ("properties".toList, .object [
      ("entry".toList, .object [("properties".toList, .object [])])]),
    ("$defs".toList, .object [
      ("Entry".toList, .object [
        ("properties".toList, .object [
          ("next".toList, .object [("$ref".toList, .string "#/definitions/entry".toList)])])])]),
    ("definitions".toList, .object [
      ("entry".toList, .object [
        ("properties".toList, .object [
          ("entry2".toList, .object [("properties".toList, .object [])])])]),
      ("id".toList, .object [("type".toList, .string "integer".toList)])])]

theorem definitions_keep_names_of_cards :
    cards.isObject = true ∧ fullCards.isObject = true ∧ SameDefinitions cards fullCards ∧
    ∃ nodes names others otherNames,
      KeepsNames cards "Cards".toList nodes names ∧
      KeepsNames fullCards "Cards".toList others otherNames ∧
      ∀ group ∈ ["definitions".toList, "$defs".toList],
        namedFields names (Draft.sectionFields (Node.root cards) group) =
          namedFields otherNames (Draft.sectionFields (Node.root fullCards) group) :=
  have same : SameDefinitions cards fullCards := ⟨by decide, by decide⟩
  ⟨rfl, rfl, same, definitions_keep_names cards fullCards "Cards".toList rfl rfl same⟩

example : (classes cards "Cards".toList).map ClassModel.name =
    ["Cards".toList, "Entry".toList, "Entry2".toList] := by decide

example : (classes fullCards "Cards".toList).map ClassModel.name =
    ["Cards".toList, "Entry3".toList, "Entry".toList, "Entry22".toList, "Entry2".toList] := by
  decide

end SchemaClasses.Schema
