import SchemaClasses.Proofs.Schema.OneClassEach
import SchemaClasses.Proofs.Schema.Reading
import SchemaClasses.Proofs.Schema.SchemaNodes

set_option autoImplicit false

namespace SchemaClasses.Schema

open Node

inductive Collects (root owner : Node) :
    Draft → List (Text × Node) → List PropertyModel → Draft → Prop where
  | nil {draft : Draft} : Collects root owner draft [] [] draft
  | cons {draft final : Draft} {jsonName : Text} {node : Node} {rest : List (Text × Node)}
      {shape : Shape} {properties : List PropertyModel}
      (reads : Shape.Reads root (Naming.pascalCase jsonName) node shape)
      (later : Collects root owner (draft.resolve owner shape).2 rest properties final) :
      Collects root owner draft ((jsonName, node) :: rest)
        (.of jsonName node (owner.required.contains jsonName) (draft.resolve owner shape).1
          :: properties) final

structure Stage where
  names : ClassNames
  classes : List ClassModel

/-- Building the classes of some nodes in turn, each followed at once by those that its properties
have brought. The first list is what to build, and the second one which classes were written. -/
inductive Builds (root : Node) : Stage → List NamedNode → List NamedNode → Stage → Prop where
  | nil {stage : Stage} : Builds root stage [] [] stage
  | known {stage final : Stage} {entry : NamedNode} {rest written : List NamedNode}
      (built : ClassModel.isBuilt stage.classes entry = true)
      (later : Builds root stage rest written final) :
      Builds root stage (entry :: rest) written final
  | new {stage middle final : Stage} {entry : NamedNode} {rest below behind : List NamedNode}
      {properties : List PropertyModel} {draft : Draft}
      (unbuilt : ClassModel.isBuilt stage.classes entry = false)
      (collects : Collects root entry.node ⟨stage.names, []⟩ entry.node.propertyFields properties draft)
      (nested : Builds root
        ⟨draft.names, stage.classes ++ [⟨entry.name, entry.node.description?, properties⟩]⟩
        draft.pending below middle)
      (later : Builds root middle rest behind final) :
      Builds root stage (entry :: rest) (entry :: (below ++ behind)) final

section

variable {document : Json.Value} {root owner : Node} {draft final : Draft}
  {fields : List (Text × Node)} {properties : List PropertyModel}

theorem Collects.endsAfter (collects : Collects root owner draft fields properties final) :
    ∀ field ∈ fields, ∃ length, EndsAfter root length field.2 := by
  induction collects with
  | nil => exact nofun
  | cons reads _ ih => exact List.forall_mem_cons.mpr ⟨reads.exists_endsAfter, ih⟩

theorem collects_iff (inside : ∀ field ∈ fields, Inside (Node.root document) field.2)
    (ends : ∀ field ∈ fields, ∃ length, EndsAfter (Node.root document) length field.2) :
    Collects (Node.root document) owner draft fields properties final ↔
      PropertyModel.collect (Node.root document) owner draft fields = (properties, final) := by
  induction fields generalizing draft properties with
  | nil =>
    constructor
    · intro collects
      cases collects
      rfl
    · intro same
      obtain ⟨rfl, rfl⟩ := Prod.mk.inj same
      exact .nil
  | cons field rest ih =>
    obtain ⟨jsonName, node⟩ := field
    obtain ⟨here, others⟩ := List.forall_mem_cons.mp inside
    obtain ⟨⟨length, ending⟩, endings⟩ := List.forall_mem_cons.mp ends
    have reads := Shape.reads_ofProperty (Naming.pascalCase jsonName) ending here
    rw [PropertyModel.collect_cons]
    constructor
    · intro collects
      cases collects with
      | cons also later =>
        obtain rfl := also.unique reads
        have same := (ih others endings).mp later
        rw [PropertyModel.shapeOf, same]
    · intro same
      obtain ⟨rfl, rfl⟩ := Prod.mk.inj same
      exact .cons reads ((ih others endings).mpr rfl)

theorem Collects.unique {others : List PropertyModel} {other : Draft}
    (one : Collects root owner draft fields properties final)
    (two : Collects root owner draft fields others other) : properties = others ∧ final = other := by
  induction one generalizing others with
  | nil =>
    cases two
    exact ⟨rfl, rfl⟩
  | cons reads _ ih =>
    cases two with
    | cons also later =>
      obtain rfl := reads.unique also
      obtain ⟨rfl, rfl⟩ := ih later
      exact ⟨rfl, rfl⟩

end

namespace Builds

variable {root : Node} {stage final : Stage} {queue written : List NamedNode}

theorem unique {others : List NamedNode} {other : Stage} (one : Builds root stage queue written final)
    (two : Builds root stage queue others other) : written = others ∧ final = other := by
  induction one generalizing others other with
  | nil =>
    cases two
    exact ⟨rfl, rfl⟩
  | known built _ ih =>
    cases two with
    | known _ later => exact ih later
    | new unbuilt => simp [built] at unbuilt
  | new unbuilt collects _ _ below behind =>
    cases two with
    | known built => simp [built] at unbuilt
    | new _ also nested later =>
      obtain ⟨rfl, rfl⟩ := collects.unique also
      obtain ⟨rfl, rfl⟩ := below nested
      obtain ⟨rfl, rfl⟩ := behind later
      exact ⟨rfl, rfl⟩

theorem split {first second : List NamedNode}
    (builds : Builds root stage (first ++ second) written final) :
    ∃ before middle behind, written = before ++ behind ∧
      Builds root stage first before middle ∧ Builds root middle second behind final := by
  induction first generalizing stage written with
  | nil => exact ⟨[], stage, written, rfl, .nil, builds⟩
  | cons entry first ih =>
    cases builds with
    | known built later =>
      obtain ⟨before, middle, behind, rfl, one, two⟩ := ih later
      exact ⟨before, middle, behind, rfl, .known built one, two⟩
    | new unbuilt collects nested later =>
      obtain ⟨before, middle, behind, rfl, one, two⟩ := ih later
      exact ⟨_, middle, behind, by simp, .new unbuilt collects nested one, two⟩

theorem names_eq (builds : Builds root stage queue written final) :
    final.classes.map ClassModel.name =
      stage.classes.map ClassModel.name ++ written.map NamedNode.name := by
  induction builds with
  | nil => simp
  | known _ _ ih => exact ih
  | new _ _ _ _ below behind => simp [below, behind]

theorem once (builds : Builds root stage queue written final)
    (distinct : (stage.classes.map ClassModel.name).Nodup) :
    (final.classes.map ClassModel.name).Nodup := by
  induction builds with
  | nil => exact distinct
  | known _ _ ih => exact ih distinct
  | @new stage _ _ entry _ _ _ _ _ unbuilt _ _ _ below behind =>
    refine behind (below ?_)
    have fresh : entry.name ∉ stage.classes.map ClassModel.name := by
      intro member
      obtain ⟨model, listed, same⟩ := List.mem_map.mp member
      rw [ClassModel.isBuilt, List.any_eq_false] at unbuilt
      exact unbuilt model listed (beq_iff_eq.mpr same)
    rw [List.map_append]
    exact List.concat_eq_append ▸ distinct.concat fresh

end Builds

/-- What holds at each stage of a run, with the nodes built so far and those still to be built. -/
structure Sound (document : Json.Value) (built : List Node) (stage : Stage)
    (queue : List NamedNode) : Prop where
  agenda : Agenda document built stage.names queue
  progress : Progress document stage.classes built stage.names
  schemas : stage.names.OfSchemas (Node.root document)

namespace Sound

variable {document : Json.Value} {built : List Node} {stage : Stage} {entry : NamedNode}
  {queue : List NamedNode}

theorem start (document : Json.Value) (rootName : Text) :
    Sound document [] ⟨(Draft.start (Node.root document) rootName).names, []⟩
      (Draft.start (Node.root document) rootName).pending :=
  ⟨agenda_start document rootName, ⟨fun _ _ => rfl, nofun⟩, .start _ _⟩

theorem known (sound : Sound document built stage (entry :: queue))
    (done : ClassModel.isBuilt stage.classes entry = true) : Sound document built stage queue :=
  ⟨sound.agenda.drop ((sound.agenda.isBuilt_iff sound.progress).mp done), sound.progress,
    sound.schemas⟩

theorem notMem (sound : Sound document built stage (entry :: queue))
    (unbuilt : ClassModel.isBuilt stage.classes entry = false) : entry.node ∉ built := by
  rw [← sound.agenda.isBuilt_iff sound.progress, unbuilt]
  decide

theorem classNode (sound : Sound document built stage (entry :: queue)) :
    ClassNode (Node.root document) entry.node :=
  sound.agenda.sound entry.node Agenda.entry_mem_scheduled

theorem new (sound : Sound document built stage (entry :: queue))
    (unbuilt : ClassModel.isBuilt stage.classes entry = false) :
    Sound document (built ++ [entry.node])
      ⟨(ClassModel.build (Node.root document) stage.names entry).2.names,
        stage.classes ++ [(ClassModel.build (Node.root document) stage.names entry).1]⟩
      ((ClassModel.build (Node.root document) stage.names entry).2.pending ++ queue) :=
  ⟨sound.agenda.build (sound.notMem unbuilt), sound.agenda.progress_build sound.progress,
    .collect sound.schemas sound.classNode.schemaNode (List.Subset.refl _)⟩

theorem inside_fields (sound : Sound document built stage (entry :: queue)) :
    ∀ field ∈ entry.node.propertyFields, Inside (Node.root document) field.2 :=
  fun _ declared => inside_of_mem_propertyFields sound.classNode.inside declared

end Sound

def PropertiesEnd (root : Node) : Prop :=
  ∀ owner, ClassNode root owner → ∀ field ∈ owner.propertyFields, ∃ length, EndsAfter root length field.2

theorem propertiesEnd_of_noLoop {document : Json.Value}
    (noLoop : ∀ node, SchemaNode (Node.root document) node →
      ¬ Relation.TransGen (Follows (Node.root document)) node node) :
    PropertiesEnd (Node.root document) := by
  intro owner classNode field declared
  have schema := SchemaNode.property classNode.schemaNode declared
  exact exists_endsAfter_of_noLoop schema.inside fun last chain => noLoop last (schema.of_chain chain)

namespace ClassModel

variable {root : Node} {names : ClassNames} {classes : List ClassModel} {entry : NamedNode}

theorem buildAll_known (built : isBuilt classes entry = true) (steps : Nat) (queue : List NamedNode) :
    buildAll root steps names classes (entry :: queue) = buildAll root steps names classes queue := by
  cases steps with
  | zero => rfl
  | succ steps => rw [buildAll, buildAll, List.dropWhile_cons_of_pos built]

theorem buildAll_new (unbuilt : isBuilt classes entry = false) (steps : Nat)
    (queue : List NamedNode) : buildAll root (steps + 1) names classes (entry :: queue) =
      buildAll root steps (build root names entry).2.names (classes ++ [(build root names entry).1])
        ((build root names entry).2.pending ++ queue) := by
  rw [buildAll, List.dropWhile_cons_of_neg (by simp [unbuilt])]

theorem buildAll_nil (steps : Nat) : buildAll root steps names classes [] = classes := by
  cases steps <;> rfl

end ClassModel

section

variable {document : Json.Value} {built : List Node} {stage final : Stage}
  {queue written : List NamedNode}

theorem Builds.sound (builds : Builds (Node.root document) stage queue written final)
    {after : List NamedNode} (sound : Sound document built stage (queue ++ after)) :
    Sound document (built ++ written.map NamedNode.node) final after ∧
      ∀ steps, ClassModel.buildAll (Node.root document) (written.length + steps) stage.names
          stage.classes (queue ++ after) =
        ClassModel.buildAll (Node.root document) steps final.names final.classes after := by
  induction builds generalizing built after with
  | nil => exact ⟨by simpa using sound, fun steps => by simp⟩
  | known done _ ih =>
    obtain ⟨later, same⟩ := ih (sound.known done)
    exact ⟨later, fun steps => (ClassModel.buildAll_known done _ _).trans (same steps)⟩
  | @new stage middle final entry rest below behind properties draft unbuilt collects _ _ first second =>
    have model : ClassModel.build (Node.root document) stage.names entry =
        (⟨entry.name, entry.node.description?, properties⟩, draft) := by
      rw [ClassModel.build, (collects_iff sound.inside_fields collects.endsAfter).mp collects]
    have next : Sound document (built ++ [entry.node])
        ⟨draft.names, stage.classes ++ [⟨entry.name, entry.node.description?, properties⟩]⟩
        (draft.pending ++ (rest ++ after)) := by
      have built := sound.new unbuilt
      rw [model] at built
      exact built
    obtain ⟨nested, same⟩ := first next
    obtain ⟨later, equal⟩ := second nested
    refine ⟨by simpa using later, fun steps => ?_⟩
    have length : (entry :: (below ++ behind)).length + steps =
        below.length + (behind.length + steps) + 1 := by
      simp only [List.length_cons, List.length_append]
      omega
    rw [length, List.cons_append, ClassModel.buildAll_new unbuilt, model, same, equal]

theorem Builds.endsAfter {root : Node} (builds : Builds root stage queue written final) :
    ∀ entry ∈ written, ∀ field ∈ entry.node.propertyFields, ∃ length, EndsAfter root length field.2 := by
  induction builds with
  | nil => exact nofun
  | known _ _ ih => exact ih
  | new _ collects _ _ below behind =>
    exact List.forall_mem_cons.mpr
      ⟨collects.endsAfter, List.forall_mem_append.mpr ⟨below, behind⟩⟩

theorem Sound.exists_builds (sound : Sound document built stage queue)
    (ends : PropertiesEnd (Node.root document)) :
    ∃ written final, Builds (Node.root document) stage queue written final := by
  -- Each class that is built leaves one node less, and each known one a shorter queue.
  induction room : document.size - built.length using Nat.strongRecOn
    generalizing built stage queue with
  | ind left ih =>
    induction queue with
    | nil => exact ⟨[], stage, .nil⟩
    | cons entry rest later =>
      cases done : ClassModel.isBuilt stage.classes entry with
      | true =>
        obtain ⟨written, final, builds⟩ := later (sound.known done)
        exact ⟨written, final, .known done builds⟩
      | false =>
        have next := sound.new done
        have bound := next.agenda.length_built_le
        rw [List.length_append, List.length_singleton] at bound
        obtain ⟨written, final, builds⟩ := ih _
          (by rw [← room, List.length_append, List.length_singleton]; omega) next rfl
        obtain ⟨below, middle, behind, rfl, nested, others⟩ := builds.split
        have collects : Collects (Node.root document) entry.node ⟨stage.names, []⟩
            entry.node.propertyFields _ _ :=
          (collects_iff sound.inside_fields (ends _ sound.classNode)).mpr rfl
        exact ⟨_, _, .new done collects nested others⟩

end

def Runs (document : Json.Value) (rootName : Text) (written : List NamedNode) (final : Stage) : Prop :=
  Builds (Node.root document) ⟨(Draft.start (Node.root document) rootName).names, []⟩
    (Draft.start (Node.root document) rootName).pending written final

section

variable {document : Json.Value} {rootName : Text} {written : List NamedNode} {final : Stage}

theorem Runs.sound (run : Runs document rootName written final) :
    Sound document (written.map NamedNode.node) final [] ∧
      final.classes = classes document rootName := by
  have start := Sound.start document rootName
  rw [← List.append_nil (Draft.start (Node.root document) rootName).pending] at start
  obtain ⟨sound, same⟩ := Builds.sound run start
  rw [List.nil_append] at sound
  -- Each node is written once, so the size of the document leaves enough steps.
  have bound := sound.agenda.length_built_le
  rw [List.length_map] at bound
  have steps := same (document.size - written.length)
  rw [Nat.add_sub_cancel' bound, List.append_nil, ClassModel.buildAll_nil] at steps
  exact ⟨sound, steps.symm⟩

theorem exists_runs_iff (document : Json.Value) (rootName : Text) :
    (∃ written final, Runs document rootName written final) ↔
      PropertiesEnd (Node.root document) := by
  constructor
  · rintro ⟨written, final, run⟩ owner classNode field declared
    have sound := run.sound.1
    have member := (mem_built_iff sound.agenda sound.progress owner).mpr classNode
    obtain ⟨entry, listed, rfl⟩ := List.mem_map.mp member
    exact Builds.endsAfter run entry listed field declared
  · exact (Sound.start document rootName).exists_builds

theorem Runs.reserved (run : Runs document rootName written final) :
    ∀ entry ∈ written, final.names.nameOf? entry.node = some entry.name := by
  have sound := run.sound.1
  have models := sound.progress.models final.names (.refl _)
  have names : written.map NamedNode.name =
      written.map fun entry => final.names.nameFor entry.node := by
    have built := Builds.names_eq run
    rw [models, List.map_map, List.map_map] at built
    exact built.symm
  intro entry listed
  have named := sound.agenda.named entry.node (List.mem_map_of_mem listed)
  obtain ⟨name, found⟩ := Option.isSome_iff_exists.mp named
  rw [List.map_inj_left.mp names entry listed, ClassNames.nameFor_eq found, found]

end

/-- The one run of a document. The nodes whose properties were read are `written`, one by one. -/
structure Terminates (document : Json.Value) (rootName : Text) (written : List NamedNode)
    (final : Stage) : Prop where
  runs : ∀ others other, Runs document rootName others other ↔ others = written ∧ other = final
  modelled : final.classes = classes document rootName
  text : ∀ namespaceName, generate document namespaceName rootName =
    .ok (Text.joinWith '\n' (sourceLines namespaceName final.classes))
  once : (written.map NamedNode.name).Nodup
  reserved : ∀ entry ∈ written, final.names.nameOf? entry.node = some entry.name
  bounded : final.names.taken.Nodup ∧
    final.names.taken.length ≤ {node | SchemaNode (Node.root document) node}.encard
  schemas : {node | SchemaNode (Node.root document) node}.encard ≤ document.size

theorem generation_terminates (document : Json.Value) (rootName : Text)
    (object : document.isObject = true)
    (noLoop : ∀ node, SchemaNode (Node.root document) node →
      ¬ Relation.TransGen (Follows (Node.root document)) node node) :
    ∃ written final, Terminates document rootName written final := by
  obtain ⟨written, final, run⟩ :=
    (exists_runs_iff document rootName).mpr (propertiesEnd_of_noLoop noLoop)
  obtain ⟨sound, same⟩ := run.sound
  refine ⟨written, final, ?_⟩
  constructor
  case runs =>
    intro others other
    constructor
    · exact fun also => Builds.unique also run
    · rintro ⟨rfl, rfl⟩
      exact run
  case modelled => exact same
  case text =>
    intro namespaceName
    rw [generate, if_pos object, same]
  case once =>
    have names := Builds.names_eq run
    rw [List.map_nil, List.nil_append] at names
    rw [← names]
    exact Builds.once run List.nodup_nil
  case reserved => exact run.reserved
  case bounded =>
    refine ⟨sound.agenda.distinct.namesApart, ?_⟩
    rw [ClassNames.taken, List.length_map]
    exact sound.schemas.length_le sound.agenda.distinct
  case schemas => exact SchemaNode.encard_le_size document

def household : Json.Value :=
  .object [
    ("properties".toList, .object [
      ("lodgers".toList, .object [
        ("type".toList, .string "array".toList),
        ("items".toList, .object [("$ref".toList, .string ['#'])])]),
      ("owner".toList, .object [("$ref".toList, .string "#/definitions/person".toList)])]),
    ("definitions".toList, .object [
      ("person".toList, .object [
        ("properties".toList, .object [
          ("friend".toList, .object [("$ref".toList, .string "#/definitions/person".toList)]),
          ("home".toList, .object [("$ref".toList, .string ['#'])]),
          ("ages".toList, .object [("$ref".toList, .string "#/definitions/ages".toList)])])]),
      ("ages".toList, .object [
        ("type".toList, .string "array".toList),
        ("items".toList, .object [("type".toList, .string "integer".toList)])])])]

theorem generation_of_household_terminates : household.isObject = true ∧
    (∀ node, SchemaNode (Node.root household) node →
      ¬ Relation.TransGen (Follows (Node.root household)) node node) ∧
    ∃ written final, Terminates household "Household".toList written final :=
  have noLoop : NoLoop (Node.root household) := noLoop_of_endsWithin 3 (by decide)
  have schemas := fun node (schema : SchemaNode (Node.root household) node) => noLoop node schema.inside
  ⟨rfl, schemas, generation_terminates household "Household".toList rfl schemas⟩

example : (classes household "Household".toList).map ClassModel.name =
    ["Household".toList, "Person".toList] := by decide

end SchemaClasses.Schema
