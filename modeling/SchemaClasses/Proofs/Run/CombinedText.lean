import SchemaClasses.Proofs.Run.Writing
import SchemaClasses.Proofs.Source.Expansion
import SchemaClasses.Proofs.Source.StrippedText

set_option autoImplicit false

namespace SchemaClasses.Pipeline

open Annotation Shorthand

def markers (pipeline : Pipeline) : List Text := pipeline.settings.annotationMarkers

def keptLines (pipeline : Pipeline) (source : Text) : List Text :=
  remaining pipeline.markers (Text.splitOn '\n' source)

theorem keptLines_ne_nil (pipeline : Pipeline) (source : Text) : pipeline.keptLines source ≠ [] :=
  remaining_ne_nil _ (Text.splitOn_ne_nil '\n' source)

theorem newline_notMem_of_mem_keptLines {pipeline : Pipeline} {source line : Text}
    (member : line ∈ pipeline.keptLines source) : '\n' ∉ line :=
  Text.notMem_of_mem_splitOn (mem_of_mem_remaining member)

section NewlineFree

variable {pipeline : Pipeline} (single : ∀ marker ∈ pipeline.markers, '\n' ∉ marker) (source : Text)

include single

theorem stripped_eq : (Passes.ofSource pipeline.settings source).stripped =
    ⟨Text.joinWith '\n' (pipeline.keptLines source),
      (dropped pipeline.markers (Text.splitOn '\n' source)).length⟩ :=
  strip_eq single source

theorem split_stripped : SourceLine.split (Passes.ofSource pipeline.settings source).stripped.text =
    SourceLine.numbered 1 (pipeline.keptLines source) :=
  congrArg (SourceLine.numbered 1) (splitOn_strip single source)

theorem expanded_eq : (Passes.ofSource pipeline.settings source).expanded =
    ⟨Text.joinWith '\n'
        ((pipeline.keptLines source).map (rewritten pipeline.settings.layout)),
      (pipeline.keptLines source).countP isConvertible⟩ := by
  rw [keptLines, ← splitOn_strip single]
  exact expandLines_split _ _

theorem splitOn_combined :
    Text.splitOn '\n' (Passes.ofSource pipeline.settings source).expanded.text =
      (pipeline.keptLines source).flatMap fun line =>
        Text.splitOn '\n' (rewritten pipeline.settings.layout line) := by
  rw [expanded_eq single]
  exact splitOn_joinWith_rewritten _ (keptLines_ne_nil pipeline source)

theorem scan_eq : (Passes.ofSource pipeline.settings source).scan =
    Scan.ofLines (SourceLine.numbered 1 (pipeline.keptLines source)) := by
  rw [← split_stripped single]
  rfl

end NewlineFree

theorem combined_text_by_lines (pipeline : Pipeline)
    (single : ∀ marker ∈ pipeline.markers, '\n' ∉ marker) (source : Text) :
    let input := Text.splitOn '\n' source
    let kept := remaining pipeline.markers input
    let combined := Text.joinWith '\n' (kept.map (rewritten pipeline.settings.layout))
    let counters := (pipeline.report source).statistics
    (∀ {m : Type → Type} [Monad m] [LawfulMonad m] (accept : Path → Text → m Unit),
      (pipeline.process (Writer.accepting accept) source).run = do
        accept pipeline.combinedPath combined
        (pipeline.wrappers source).forM (Artifact.handTo accept)
        return .ok (pipeline.report source)) ∧
    counters.inputLines = input.length ∧
    counters.strippedAnnotations = (dropped pipeline.markers input).length ∧
    counters.expandedProperties = kept.countP isConvertible ∧
    counters.strippedAnnotations ≤ counters.inputLines ∧
    (Text.splitOn '\n' combined).length =
      counters.inputLines - counters.strippedAnnotations
        + pipeline.settings.layout.addedLines * counters.expandedProperties := by
  intro input kept combined counters
  have text : (Passes.ofSource pipeline.settings source).expanded.text = combined :=
    congrArg Expansion.text (expanded_eq single source)
  have lines : counters.inputLines = input.length := by
    change (SourceLine.split source).length = _
    rw [← List.length_map SourceLine.text, SourceLine.split, SourceLine.map_text_numbered]
  have stripped : counters.strippedAnnotations = (dropped pipeline.markers input).length :=
    congrArg Stripped.removed (stripped_eq single source)
  have expanded : counters.expandedProperties = kept.countP isConvertible :=
    congrArg Expansion.count (expanded_eq single source)
  have accounted : kept.length + (dropped pipeline.markers input).length = input.length :=
    length_remaining_add_dropped pipeline.markers input
  have total : (Text.splitOn '\n' combined).length =
      kept.length + pipeline.settings.layout.addedLines * kept.countP isConvertible :=
    length_splitOn_expanded _ (keptLines_ne_nil pipeline source)
      fun line member => newline_notMem_of_mem_keptLines member
  refine ⟨?_, lines, stripped, expanded, by omega, ?_⟩
  · intro m _ _ accept
    rw [run_process_accepting, text]
  · rw [total, expanded]
    omega

theorem combined_text_of_overlapping_markers :
    let pipeline : Pipeline := ⟨.standard, standardOutputFile, ⟨"out".toList⟩, .builtin⟩
    let source := "[System][Newtonsoft]\r\n public int A \x7b get; set; \x7d = 1;\r\n[System]".toList
    let counters := (pipeline.report source).statistics
    (∀ marker ∈ pipeline.markers, '\n' ∉ marker) ∧
    (∀ {m : Type → Type} [Monad m] [LawfulMonad m] (accept : Path → Text → m Unit),
      (pipeline.process (Writer.accepting accept) source).run = do
        accept pipeline.combinedPath (" private int a = 1;\n".toList
          ++ " public int A \x7b get \x7b return a; \x7d set \x7b a = value; \x7d \x7d\n[System]".toList)
        (pipeline.wrappers source).forM (Artifact.handTo accept)
        return .ok (pipeline.report source)) ∧
    counters.strippedAnnotations = 1 ∧ counters.expandedProperties = 1 := by
  intro pipeline source counters
  have single : ∀ marker ∈ pipeline.markers, '\n' ∉ marker := by decide
  have facts := combined_text_by_lines pipeline single source
  have text : Text.joinWith '\n' ((remaining pipeline.markers (Text.splitOn '\n' source)).map
      (rewritten pipeline.settings.layout)) = " private int a = 1;\n".toList
        ++ " public int A \x7b get \x7b return a; \x7d set \x7b a = value; \x7d \x7d\n[System]".toList := by
    decide +kernel
  refine ⟨single, text ▸ facts.1, facts.2.2.1.trans ?_, facts.2.2.2.1.trans ?_⟩
  · decide +kernel
  · decide +kernel

end SchemaClasses.Pipeline
