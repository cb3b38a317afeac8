import SchemaClasses.Proofs.Run.CombinedText
import SchemaClasses.Proofs.Source.ScanStates

set_option autoImplicit false

namespace SchemaClasses

namespace ClassBlock

theorem propertyCount_append (first second : List ClassBlock) :
    propertyCount (first ++ second) = propertyCount first + propertyCount second := by
  induction first with
  | nil => simp [propertyCount]
  | cons block blocks ih => simp [propertyCount, ih, Nat.add_assoc]

theorem propertyCount_shift (distance : Nat) (blocks : List ClassBlock) :
    propertyCount (blocks.map (shift distance)) = propertyCount blocks := by
  induction blocks with
  | nil => rfl
  | cons block blocks ih => simp [propertyCount, ih, shift]

end ClassBlock

theorem WrapperStyle.artifact_shift (style : WrapperStyle) (distance : Nat) (block : ClassBlock) :
    style.artifact (block.shift distance) = style.artifact block := rfl

namespace Pipeline

open Annotation Shorthand

/-- The first text ends where a line ends, behind these lines. -/
def Ends (first : Text) (lines : List Text) : Prop :=
  ∀ rest, Text.splitOn '\n' (first ++ rest) = lines ++ Text.splitOn '\n' rest

section Seam

variable {pipeline : Pipeline} {first : Text} {lines : List Text} (ends : Ends first lines)

include ends

theorem Ends.splitOn_eq : Text.splitOn '\n' first = lines ++ [[]] := by
  have alone := ends []
  rwa [List.append_nil] at alone

theorem keptLines_append (second : Text) : pipeline.keptLines (first ++ second) =
    unmarked pipeline.markers lines ++ pipeline.keptLines second := by
  rw [keptLines, ends, remaining_append _ _ (Text.splitOn_ne_nil '\n' second)]
  rfl

theorem keptLines_of_ends :
    pipeline.keptLines first = unmarked pipeline.markers lines ++ [[]] := by
  rw [keptLines, ends.splitOn_eq, remaining_concat]

variable (single : ∀ marker ∈ pipeline.markers, '\n' ∉ marker)

include single

theorem count_stripped :
    (Passes.ofSource pipeline.settings first).stripped.text.count '\n' =
      (unmarked pipeline.markers lines).length := by
  have lengths := congrArg List.length (split_stripped single first)
  rw [SourceLine.length_split, Text.length_splitOn, keptLines_of_ends ends,
    ← List.length_map SourceLine.text, SourceLine.map_text_numbered, List.length_append] at lengths
  exact Nat.succ.inj lengths

theorem combined_append (second : Text) :
    (Passes.ofSource pipeline.settings (first ++ second)).expanded.text =
      (Passes.ofSource pipeline.settings first).expanded.text ++
        (Passes.ofSource pipeline.settings second).expanded.text := by
  have empty : rewritten pipeline.settings.layout [] = [] := by
    cases pipeline.settings.layout <;> rfl
  have nonempty : (pipeline.keptLines second).map (rewritten pipeline.settings.layout) ≠ [] := by
    simpa using keptLines_ne_nil pipeline second
  simp only [expanded_eq single, keptLines_append ends, keptLines_of_ends ends, List.map_append,
    List.map_cons, List.map_nil, empty]
  exact Text.joinWith_append '\n' _ nonempty

theorem stripped_append (second : Text) :
    (Passes.ofSource pipeline.settings (first ++ second)).stripped.removed =
      (Passes.ofSource pipeline.settings first).stripped.removed +
        (Passes.ofSource pipeline.settings second).stripped.removed := by
  have alone : dropped pipeline.markers [[]] = [] := rfl
  simp only [stripped_eq single, ends second, ends.splitOn_eq,
    dropped_append _ _ (List.cons_ne_nil _ _), dropped_append _ _ (Text.splitOn_ne_nil '\n' second),
    alone, List.append_nil, List.length_append]

theorem count_expanded_append (second : Text) :
    (Passes.ofSource pipeline.settings (first ++ second)).expanded.count =
      (Passes.ofSource pipeline.settings first).expanded.count +
        (Passes.ofSource pipeline.settings second).expanded.count := by
  have empty : [[]].countP isConvertible = 0 := by decide
  simp only [expanded_eq single, keptLines_append ends, keptLines_of_ends ends, List.countP_append,
    empty, Nat.add_zero]

variable (outside : Scan.stateAfter .outside
  (SourceLine.split (Passes.ofSource pipeline.settings first).stripped.text).dropLast = .outside)

include outside

theorem scan_append (second : Text) : (Passes.ofSource pipeline.settings (first ++ second)).scan =
    Scan.append (Passes.ofSource pipeline.settings first).scan
      ((Passes.ofSource pipeline.settings second).scan.shift
        ((Passes.ofSource pipeline.settings first).stripped.text.count '\n')) := by
  rw [split_stripped single, keptLines_of_ends ends, SourceLine.numbered_append] at outside
  have closed : Scan.stateAfter .outside
      (SourceLine.numbered 1 (unmarked pipeline.markers lines)) = .outside := by
    rwa [SourceLine.numbered, SourceLine.numbered, List.dropLast_concat] at outside
  -- The empty piece behind the last line end of the first text brings nothing.
  have last (number : Nat) : Scan.ofLines (SourceLine.numbered number [[]]) = ⟨[], []⟩ := by
    have quiet : Scan.Quiet [] := (by decide : LineKind.ofLine [] = .other)
    have other : ∀ name, SourceLine.kind ⟨number, []⟩ ≠ .classHeader name := quiet.headless
    rw [Scan.ofLines, SourceLine.numbered, Scan.resume_skip other]
    rfl
  rw [count_stripped ends single, scan_eq single, scan_eq single, scan_eq single,
    keptLines_append ends, keptLines_of_ends ends, SourceLine.numbered_append,
    SourceLine.numbered_append, Scan.ofLines_append closed, Scan.ofLines_append closed, last,
    ← SourceLine.numbered_shift, Scan.ofLines_shift]
  simp [Scan.append]

theorem statistics_append (second : Text) :
    let statistics := fun source => (Passes.ofSource pipeline.settings source).statistics
    { statistics (first ++ second) with inputLines := (statistics (first ++ second)).inputLines + 1 } =
      (statistics first).merge (statistics second) := by
  intro statistics
  have scan := scan_append ends single outside second
  have lines : (SourceLine.split (first ++ second)).length + 1 =
      (SourceLine.split first).length + (SourceLine.split second).length := by
    simp only [SourceLine.length_split, ends second, ends.splitOn_eq, List.length_append,
      List.length_singleton]
    omega
  have classes := congrArg (fun scan => scan.classes.length) scan
  have properties := congrArg (fun scan => ClassBlock.propertyCount scan.classes) scan
  have diagnostics := congrArg (fun scan => scan.diagnostics.length) scan
  simp only [Scan.append, Scan.shift, List.length_append, List.length_map,
    ClassBlock.propertyCount_append, ClassBlock.propertyCount_shift] at classes properties diagnostics
  simp only [statistics, Passes.statistics, Statistics.merge, stripped_append ends single second,
    count_expanded_append ends single second, classes, properties, diagnostics]
  exact congrArg (fun n => Statistics.mk n _ _ _ _ _ _) lines

end Seam

theorem concatenated_run (pipeline : Pipeline)
    (single : ∀ marker ∈ pipeline.markers, '\n' ∉ marker) (first second : Text)
    (ended : first = [] ∨ first.getLast? = some '\n')
    (outside : Scan.stateAfter .outside
      (SourceLine.split (Passes.ofSource pipeline.settings first).stripped.text).dropLast =
        .outside) :
    let combined := fun source => (Passes.ofSource pipeline.settings source).expanded.text
    let distance := (Passes.ofSource pipeline.settings first).stripped.text.count '\n'
    let before := pipeline.report first
    let behind := pipeline.report second
    let whole := pipeline.report (first ++ second)
    (∀ {m : Type → Type} [Monad m] [LawfulMonad m] (accept : Path → Text → m Unit) (source : Text),
      (pipeline.process (Writer.accepting accept) source).run = do
        accept pipeline.combinedPath (combined source)
        (pipeline.wrappers source).forM (Artifact.handTo accept)
        return .ok (pipeline.report source)) ∧
    combined (first ++ second) = combined first ++ combined second ∧
    whole.classes = before.classes ++ behind.classes.map (ClassBlock.shift distance) ∧
    whole.diagnostics = before.diagnostics ++ behind.diagnostics.map (Diagnostic.shift distance) ∧
    { whole.statistics with inputLines := whole.statistics.inputLines + 1 } =
      before.statistics.merge behind.statistics ∧
    pipeline.wrappers (first ++ second) = pipeline.wrappers first ++ pipeline.wrappers second := by
  intro combined distance before behind whole
  obtain ⟨lines, ends⟩ : ∃ lines, Ends first lines := Text.exists_splitOn_append ended
  have scan := scan_append ends single outside second
  have classes : whole.classes = before.classes ++ behind.classes.map (ClassBlock.shift distance) :=
    congrArg Scan.classes scan
  refine ⟨fun accept source => run_process_accepting pipeline accept source,
    combined_append ends single second, classes, congrArg Scan.diagnostics scan,
    statistics_append ends single outside second, ?_⟩
  have wrappers : pipeline.wrappers (first ++ second) =
      (before.classes ++ behind.classes.map (ClassBlock.shift distance)).map pipeline.style.artifact :=
    congrArg (List.map pipeline.style.artifact) classes
  simp only [wrappers, List.map_append, List.map_map, Function.comp_def,
    WrapperStyle.artifact_shift]
  rfl

theorem run_over_two_parts :
    let pipeline : Pipeline := ⟨.standard, standardOutputFile, ⟨"out".toList⟩, .builtin⟩
    let first := ("[System]\r\npublic partial class A\n\x7b\n" ++
      "public int X \x7b get; set; \x7d = 1;\n\x7d\n").toList
    let second := "public partial class B\n\x7d\npublic int".toList
    let whole := pipeline.report (first ++ second)
    (∀ marker ∈ pipeline.markers, '\n' ∉ marker) ∧ (first = [] ∨ first.getLast? = some '\n') ∧
    Scan.stateAfter .outside
      (SourceLine.split (Passes.ofSource pipeline.settings first).stripped.text).dropLast =
        .outside ∧
    (Passes.ofSource pipeline.settings (first ++ second)).expanded.text =
      (Passes.ofSource pipeline.settings first).expanded.text ++ second ∧
    whole.classes = [⟨"A".toList, [['X']], 1⟩] ∧
    whole.diagnostics.map (fun found => (found.line, found.kind)) =
      [(6, .negativeBraceDepth), (7, .unrecognizedMember), (5, .unterminatedClass)] ∧
    { whole.statistics with inputLines := whole.statistics.inputLines + 1 } =
      (⟨9, 1, 1, 1, 1, 1, 3⟩ : Statistics) := by
  intro pipeline first second whole
  have single : ∀ marker ∈ pipeline.markers, '\n' ∉ marker := by decide
  have ended : first = [] ∨ first.getLast? = some '\n' := by decide
  have outside : Scan.stateAfter .outside
      (SourceLine.split (Passes.ofSource pipeline.settings first).stripped.text).dropLast =
        .outside := by
    decide +kernel
  obtain ⟨-, text, classes, diagnostics, statistics, -⟩ :=
    concatenated_run pipeline single first second ended outside
  refine ⟨single, ended, outside, text.trans ?_, classes.trans ?_, ?_, statistics.trans ?_⟩
  · decide +kernel
  · decide +kernel
  · rw [diagnostics]
    decide +kernel
  · decide +kernel

end Pipeline

end SchemaClasses
