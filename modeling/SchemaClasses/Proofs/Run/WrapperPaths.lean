import SchemaClasses.Proofs.Run.Refusal
import SchemaClasses.Proofs.Source.ClassOutline
import SchemaClasses.Proofs.Source.HeaderNames

set_option autoImplicit false

namespace SchemaClasses

namespace Component

theorem isFileName_extension_iff (name : Text) :
    IsFileName (name ++ ".cs".toList) ↔ '/' ∉ name := by
  constructor
  · intro named member
    exact named.single (List.mem_append_left _ member)
  · intro single
    have ending {file : Text} (short : file.getLast? ≠ some 's') : name ++ ".cs".toList ≠ file := by
      rintro rfl
      exact short (by simp)
    exact ⟨by simp, by simpa using single, ending (by decide), ending (by decide)⟩

end Component

namespace Pipeline

theorem wrapper_paths (pipeline : Pipeline)
    (standard : pipeline.settings.wrapperExtension = Settings.standard.wrapperExtension)
    (source : Text) :
    let passes := Passes.ofSource pipeline.settings source
    let report := pipeline.report source
    (∀ line name, LineKind.ofLine line = .classHeader name →
      (Text.words (Text.trim line))[3]? = some name) ∧
    (∀ name, (∃ line, LineKind.ofLine line = .classHeader name) ↔
      name ≠ [] ∧ ∀ c ∈ name, Text.isBlank c = false) ∧
    (∀ {σ : Type} (writer : Writer (StateM σ)) (start : σ),
      ((pipeline.process writer.recorded source).run.run ([], start)).2.1 <+:
        ⟨pipeline.combinedPath, passes.expanded.text⟩ ::
          report.classes.map pipeline.style.artifact) ∧
    ∀ block ∈ report.classes,
      let file := block.name ++ ".cs".toList
      let path := (pipeline.style.artifact block).path
      (∃ header ∈ SourceLine.split passes.stripped.text,
        header.number = block.line ∧ header.kind = .classHeader block.name) ∧
      path = pipeline.outputDirectory.join ⟨file⟩ ∧
      (Component.IsFileName file ↔ '/' ∉ block.name) ∧
      ('/' ∉ block.name →
        path.components = pipeline.outputDirectory.components ++ [.name file]) := by
  intro passes report
  refine ⟨fun line name header => (LineKind.fourth_word_of_header header).1,
    LineKind.exists_header_iff, fun writer start => calls_isPrefix pipeline writer source start, ?_⟩
  intro block found file path
  have placed : path = pipeline.outputDirectory.join ⟨file⟩ := by
    have extension : '.' :: pipeline.style.extension = ".cs".toList := congrArg ('.' :: ·) standard
    exact congrArg (fun ending => pipeline.outputDirectory.join ⟨block.name ++ ending⟩) extension
  have named := Component.isFileName_extension_iff block.name
  obtain ⟨header, body, inside, kind, number, -⟩ := Scan.exists_run_of_class found
  refine ⟨⟨header, inside.subset List.mem_cons_self, number, kind⟩, placed, named, fun single => ?_⟩
  rw [placed, Path.components_join_isFileName _ (named.mpr single)]

theorem wrapper_of_generic_class :
    let pipeline : Pipeline := ⟨.standard, standardOutputFile, ⟨"out".toList⟩, .builtin⟩
    let source := "public partial class Box<T>:Base\n\x7b\n\x7d".toList
    let block : ClassBlock := ⟨"Box<T>:Base".toList, [], 1⟩
    pipeline.settings.wrapperExtension = Settings.standard.wrapperExtension ∧
    block ∈ (pipeline.report source).classes ∧
    (pipeline.style.artifact block).path.components =
      [.name "out".toList, .name "Box<T>:Base.cs".toList] := by
  intro pipeline source block
  have standard : pipeline.settings.wrapperExtension = Settings.standard.wrapperExtension := rfl
  have found : block ∈ (pipeline.report source).classes := by decide +kernel
  have facts := (wrapper_paths pipeline standard source).2.2.2 block found
  exact ⟨standard, found, facts.2.2.2 (by decide)⟩

theorem wrapper_beside_directory :
    let pipeline : Pipeline := ⟨.standard, standardOutputFile, ⟨"out".toList⟩, .builtin⟩
    let source := "public partial class ../Escape\n\x7b\n\x7d\n".toList
    let report := pipeline.report source
    LineKind.ofLine "public partial class Widget: Base".toList = .classHeader "Widget:".toList ∧
    LineKind.ofLine "public partial class ../Escape".toList = .classHeader "../Escape".toList ∧
    ¬ "../Escape".toList.all Text.isWordPart ∧
    (pipeline.processInMemory source).1 = .ok report ∧
    report.writtenFiles = [⟨"out/GeneratedClasses.cs".toList⟩, ⟨"out/../Escape.cs".toList⟩] ∧
    ∀ file, Component.IsFileName file →
      (⟨"out/../Escape.cs".toList⟩ : Path).components ≠
        pipeline.outputDirectory.components ++ [.name file] := by
  intro pipeline source report
  have ran := run_process_of_takes pipeline
    (Store.takes_writer (pipeline.artifacts source) Store.empty)
  refine ⟨by decide +kernel, by decide +kernel, by decide, congrArg Prod.fst ran, by decide +kernel, ?_⟩
  -- The wrapper is three components deep, and a file of the directory only two.
  intro file _ same
  have depths := congrArg List.length same
  rw [List.length_append, List.length_singleton] at depths
  exact absurd depths (by decide)

end Pipeline

end SchemaClasses
