import SchemaClasses.Proofs.Run.Refusal

set_option autoImplicit false

namespace SchemaClasses

namespace WrapperStyle

variable {style : WrapperStyle} {first second : ClassBlock}

theorem slash_notMem_fileName (plain : '/' ∉ style.extension) (named : '/' ∉ first.name) :
    '/' ∉ style.fileName first := by
  simp [fileName, plain, named]

theorem place_artifact_eq_iff (plain : '/' ∉ style.extension) (one : '/' ∉ first.name)
    (two : '/' ∉ second.name) :
    (style.artifact first).place = (style.artifact second).place ↔ first.name = second.name := by
  constructor
  · intro same
    have files : style.fileName first = style.fileName second :=
      Path.eq_of_components_join (slash_notMem_fileName plain one) (slash_notMem_fileName plain two)
        (by simp [fileName]) (by simp [fileName]) same
    exact List.append_cancel_right files
  · intro same
    rw [artifact, artifact, fileName, fileName, same]
    rfl

theorem places_nodup_iff {blocks : List ClassBlock} (plain : '/' ∉ style.extension)
    (named : ∀ block ∈ blocks, '/' ∉ block.name) :
    (blocks.map fun block => (style.artifact block).place).Nodup ↔
      (blocks.map ClassBlock.name).Nodup := by
  rw [List.Nodup, List.pairwise_map, List.Nodup, List.pairwise_map]
  apply List.Pairwise.iff_of_mem
  intro first second one two
  exact not_congr (place_artifact_eq_iff plain (named first one) (named second two))

end WrapperStyle

namespace Pipeline

theorem eq_report_of_process {σ : Type} {pipeline : Pipeline} {writer : Writer (StateM σ)}
    {source : Text} {start last : σ} {answer : Report}
    (succeeds : (pipeline.process writer source).run.run start = (.ok answer, last)) :
    answer = pipeline.report source := by
  rw [process_eq_deliveries, ExceptT.run_bind, StateT.run_bind] at succeeds
  generalize ((pipeline.deliveries source).forM (Delivery.perform writer)).run.run start = outcome
    at succeeds
  rcases outcome with ⟨_ | _, middle⟩
  · cases succeeds
  · cases succeeds
    rfl

theorem processInMemory_eq (pipeline : Pipeline) (source : Text) : pipeline.processInMemory source =
    (.ok (pipeline.report source), Store.empty.putAll (pipeline.artifacts source)) :=
  run_process_of_takes pipeline (Store.takes_writer _ _)

theorem artifacts_apart_iff (pipeline : Pipeline) (source : Text) :
    let report := pipeline.report source
    let places := report.writtenFiles.map Path.components
    let store := (pipeline.processInMemory source).2
    (∀ {σ : Type} (writer : Writer (StateM σ)) (start last : σ) (answer : Report),
      (pipeline.process writer source).run.run start = (.ok answer, last) → answer = report) ∧
    (pipeline.processInMemory source).1 = .ok report ∧
    report.writtenFiles = pipeline.combinedPath ::
      report.classes.map (fun block => (pipeline.style.artifact block).path) ∧
    (∀ path, store.get? path =
      Store.contentAt? path.components (pipeline.artifacts source).reverse) ∧
    store.size = places.dedup.length ∧
    ('/' ∉ pipeline.settings.wrapperExtension → (∀ block ∈ report.classes, '/' ∉ block.name) →
      (places.Nodup ↔ (report.classes.map ClassBlock.name).Nodup ∧
        ∀ block ∈ report.classes,
          (pipeline.style.artifact block).path.components ≠ pipeline.combinedPath.components)) ∧
    (places.Nodup →
      store.size = 1 + report.statistics.classesFound ∧
      store.get? pipeline.combinedPath =
        some (Passes.ofSource pipeline.settings source).expanded.text ∧
      ∀ block ∈ report.classes, store.get? (pipeline.style.artifact block).path =
        some (pipeline.template.render pipeline.settings.namespaceName block)) := by
  intro report places store
  have held : store = Store.empty.putAll (pipeline.artifacts source) :=
    congrArg Prod.snd (processInMemory_eq pipeline source)
  have listed : places = (pipeline.artifacts source).map Artifact.place := List.map_map
  have cut : places = pipeline.combinedPath.components ::
      report.classes.map (fun block => (pipeline.style.artifact block).place) := by
    rw [listed, artifacts, List.map_cons, List.map_map]
    rfl
  refine ⟨fun _ _ _ _ => eq_report_of_process, congrArg Prod.fst (processInMemory_eq pipeline source),
    ?_, fun path => held ▸ Store.get?_putAll _ path, ?_, ?_, ?_⟩
  · exact congrArg (pipeline.combinedPath :: ·) List.map_map
  · rw [held, Store.size_putAll, listed]
  · intro plain named
    rw [cut, List.nodup_cons, WrapperStyle.places_nodup_iff plain named, and_comm]
    simp [Artifact.place]
  · intro apart
    have reversed : ((pipeline.artifacts source).reverse.map Artifact.place).Nodup := by
      rw [List.map_reverse, List.nodup_reverse, ← listed]
      exact apart
    have content {artifact : Artifact} (member : artifact ∈ pipeline.artifacts source) :
        store.get? artifact.path = some artifact.content := by
      rw [held, Store.get?_putAll]
      exact Store.contentAt?_of_mem reversed (List.mem_reverse.mpr member)
    refine ⟨?_, content List.mem_cons_self, ?_⟩
    · rw [held, Store.size_putAll, ← listed, apart.dedup, cut, List.length_cons, List.length_map,
        Nat.add_comm]
      rfl
    · intro block member
      exact content (List.mem_cons_of_mem _ (List.mem_map_of_mem member))

theorem wrappers_of_two_classes_apart :
    let pipeline : Pipeline := ⟨.standard, standardOutputFile, ⟨"out/".toList⟩, .builtin⟩
    let source := "public partial class A\n\x7b\n\x7d\npublic partial class B\npublic int X;".toList
    let report := pipeline.report source
    let store := (pipeline.processInMemory source).2
    '/' ∉ pipeline.settings.wrapperExtension ∧ (∀ block ∈ report.classes, '/' ∉ block.name) ∧
    (report.classes.map ClassBlock.name).Nodup ∧
    (report.writtenFiles.map Path.components).Nodup ∧ store.size = 1 + 2 ∧
    store.get? pipeline.combinedPath = some source := by
  intro pipeline source report store
  have found : report.classes = [⟨"A".toList, [], 1⟩, ⟨"B".toList, ["X".toList], 4⟩] := by
    decide +kernel
  have text : (Passes.ofSource pipeline.settings source).expanded.text = source := by
    decide +kernel
  have plain : '/' ∉ pipeline.settings.wrapperExtension := by decide
  have named : ∀ block ∈ report.classes, '/' ∉ block.name := by
    rw [found]
    decide
  have names : (report.classes.map ClassBlock.name).Nodup := by
    rw [found]
    decide
  have away : ∀ block ∈ report.classes,
      (pipeline.style.artifact block).path.components ≠ pipeline.combinedPath.components := by
    rw [found]
    decide
  have count : report.statistics.classesFound = 2 := congrArg List.length found
  have facts := (artifacts_apart_iff pipeline source).2.2.2.2.2
  have apart := (facts.1 plain named).mpr ⟨names, away⟩
  have kept := facts.2 apart
  exact ⟨plain, named, names, apart, count ▸ kept.1, text ▸ kept.2.1⟩

theorem repeated_class_replaced :
    let template : Template := ⟨"\x7b\x7bclass_name\x7d\x7d:\x7b\x7bproperties\x7d\x7d".toList⟩
    let pipeline : Pipeline := ⟨.standard, standardOutputFile, ⟨"out".toList⟩, template⟩
    let source := ("public partial class A\n\x7b\npublic int X;\n\x7d\n" ++
      "public partial class A\n\x7b\n\x7d\n").toList
    let report := pipeline.report source
    let store := (pipeline.processInMemory source).2
    (pipeline.processInMemory source).1 = .ok report ∧
    report.writtenFiles =
      [⟨"out/GeneratedClasses.cs".toList⟩, ⟨"out/A.cs".toList⟩, ⟨"out/A.cs".toList⟩] ∧
    ¬ (report.writtenFiles.map Path.components).Nodup ∧
    report.statistics.wrappersWritten = 2 ∧ store.size ≠ 1 + report.statistics.classesFound ∧
    ∃ block ∈ report.classes, store.get? (pipeline.style.artifact block).path ≠
      some (pipeline.template.render pipeline.settings.namespaceName block) := by
  intro template pipeline source report store
  have held : store = Store.empty.putAll (pipeline.artifacts source) :=
    congrArg Prod.snd (processInMemory_eq pipeline source)
  have written : report.writtenFiles =
      [⟨"out/GeneratedClasses.cs".toList⟩, ⟨"out/A.cs".toList⟩, ⟨"out/A.cs".toList⟩] := by
    decide +kernel
  have count : report.statistics.classesFound = 2 := by decide +kernel
  refine ⟨congrArg Prod.fst (processInMemory_eq pipeline source), written, ?_, count, ?_, ?_⟩
  · rw [written]
    decide
  · rw [held, count]
    decide +kernel
  · rw [held]
    decide +kernel

example : ((Pipeline.mk .standard standardOutputFile ⟨"out".toList⟩ ⟨[]⟩).processInMemory
    "public partial class GeneratedClasses\n".toList).2.files =
      [⟨⟨"out/GeneratedClasses.cs".toList⟩, []⟩] := by
  decide +kernel

end Pipeline

end SchemaClasses
