import SchemaClasses.Proofs.Run.CombinedText
import SchemaClasses.Proofs.Source.ScanStates
import SchemaClasses.Proofs.Text.Returns

set_option autoImplicit false

namespace SchemaClasses

namespace Annotation

theorem dropReturn_of_notMem {line : Text} (absent : '\r' ∉ line) : dropReturn line = line := by
  obtain rfl | ⟨before, last, rfl⟩ := List.eq_nil_or_concat line
  · rfl
  · rw [List.concat_eq_append] at absent ⊢
    refine dropReturn_concat ?_ before
    rintro rfl
    exact absent (by simp)

theorem dropReturn_return (line : Text) : dropReturn (line ++ ['\r']) = line := by
  simp [dropReturn]

theorem marked_return (markers : List Text) {line : Text} (absent : '\r' ∉ line) :
    Marked markers (line ++ ['\r']) ↔ Marked markers line := by
  simp only [Marked, MarkedBy, dropReturn_return, dropReturn_of_notMem absent]

theorem remaining_returns (markers : List Text) {lines : List Text}
    (absent : ∀ line ∈ lines, '\r' ∉ line) (last : Text) :
    remaining markers (lines.map (· ++ ['\r']) ++ [last]) =
      (unmarked markers lines).map (· ++ ['\r']) ++ [last] := by
  rw [remaining_concat, unmarked, List.filter_map, unmarked]
  congr 2
  refine List.filter_congr fun line member => ?_
  simp [marked_return markers (absent line member)]

theorem length_dropped_returns (markers : List Text) {lines : List Text}
    (absent : ∀ line ∈ lines, '\r' ∉ line) (last : Text) :
    (dropped markers (lines.map (· ++ ['\r']) ++ [last])).length =
      (dropped markers (lines ++ [last])).length := by
  simp only [dropped, List.dropLast_concat, ← List.countP_eq_length_filter, List.countP_map]
  refine List.countP_congr fun line member => ?_
  simp [marked_return markers (absent line member)]

end Annotation

namespace Shorthand

open Text

theorem isConvertible_return (line : Text) :
    isConvertible (line ++ ['\r']) = isConvertible line := by
  rw [isConvertible, trim_blank (by decide), isConvertible]

theorem parse?_return (line : Text) : parse? (line ++ ['\r']) = parse? line := by
  have blank : isBlank '\r' = true := by decide
  simp only [parse?, isConvertible_return, trim_blank blank, trimEnd_blank blank]

theorem return_notMem_rewritten (layout : PropertyLayout) {line : Text} (absent : '\r' ∉ line) :
    '\r' ∉ rewritten layout line := by
  rw [rewritten_eq_getD, expandLine?]
  cases parsed : parse? line with
  | none => exact absent
  | some property =>
    exact notMem_joinWith (by decide) (ExpandedProperty.notMem_lines (.inr rfl)
      (notMem_parts_expand Naming.isForeign_return
        (notMem_parts_of_parse? (by decide) absent parsed)) layout)

theorem dropReturns_rewritten (layout : PropertyLayout) {line : Text} (absent : '\r' ∉ line) :
    dropReturns (rewritten layout (line ++ ['\r'])) = rewritten layout line := by
  have plain := dropReturns_of_notMem (return_notMem_rewritten layout absent)
  rw [rewritten_eq_getD, expandLine?] at plain ⊢
  rw [rewritten_eq_getD, expandLine?, parse?_return]
  cases parsed : parse? line with
  | none => exact (dropReturns_concat line).trans (dropReturns_of_notMem absent)
  | some property =>
    rw [parsed] at plain
    exact plain

end Shorthand

namespace Pipeline

open Annotation Shorthand Text

section Returns

variable {pipeline : Pipeline} {source : Text} (plain : '\r' ∉ source)

include plain

theorem exists_keptLines_withReturns (pipeline : Pipeline) : ∃ before last,
    (∀ line ∈ before ++ [last], '\r' ∉ line) ∧
    pipeline.keptLines source = before ++ [last] ∧
    pipeline.keptLines (withReturns source) = before.map (· ++ ['\r']) ++ [last] := by
  obtain ⟨before, last, lines, returned⟩ := exists_lines_withReturns source
  have absent : ∀ line ∈ before ++ [last], '\r' ∉ line := fun line member inside =>
    plain (mem_of_mem_splitOn (lines ▸ member) inside)
  refine ⟨unmarked pipeline.markers before, last, ?_, ?_, ?_⟩
  · intro line member
    rcases List.mem_append.mp member with kept | final
    · exact absent line (List.mem_append_left _ (mem_unmarked.mp kept).1)
    · exact absent line (List.mem_append_right _ final)
  · rw [keptLines, lines, remaining_concat]
  · rw [keptLines, returned, remaining_returns]
    exact fun line member => absent line (List.mem_append_left _ member)

variable (single : ∀ marker ∈ pipeline.markers, '\n' ∉ marker)

include single

theorem removed_withReturns :
    (Passes.ofSource pipeline.settings (withReturns source)).stripped.removed =
      (Passes.ofSource pipeline.settings source).stripped.removed := by
  obtain ⟨before, last, lines, returned⟩ := exists_lines_withReturns source
  simp only [stripped_eq single, lines, returned]
  refine length_dropped_returns _ (fun line member inside => plain ?_) last
  exact mem_of_mem_splitOn (lines ▸ List.mem_append_left _ member) inside

theorem scan_withReturns : (Passes.ofSource pipeline.settings (withReturns source)).scan =
    (Passes.ofSource pipeline.settings source).scan := by
  obtain ⟨before, last, -, kept, returned⟩ := exists_keptLines_withReturns plain pipeline
  rw [scan_eq single, scan_eq single, kept, returned]
  refine Scan.resume_congr ?_ 1 .outside
  simp [trim_blank (show isBlank '\r' = true by decide)]

theorem count_expanded_withReturns :
    (Passes.ofSource pipeline.settings (withReturns source)).expanded.count =
      (Passes.ofSource pipeline.settings source).expanded.count := by
  obtain ⟨before, last, -, kept, returned⟩ := exists_keptLines_withReturns plain pipeline
  simp [expanded_eq single, kept, returned, List.countP_map, Function.comp_def,
    isConvertible_return]

theorem dropReturns_combined :
    dropReturns (Passes.ofSource pipeline.settings (withReturns source)).expanded.text =
      (Passes.ofSource pipeline.settings source).expanded.text := by
  obtain ⟨before, last, absent, kept, returned⟩ := exists_keptLines_withReturns plain pipeline
  have ended : ∀ line ∈ before, dropReturns (rewritten pipeline.settings.layout (line ++ ['\r'])) =
      rewritten pipeline.settings.layout line := fun line member =>
    dropReturns_rewritten _ (absent line (List.mem_append_left _ member))
  have final : dropReturns (rewritten pipeline.settings.layout last) =
      rewritten pipeline.settings.layout last :=
    dropReturns_of_notMem (return_notMem_rewritten _ (absent last (by simp)))
  rw [expanded_eq single, expanded_eq single, kept, returned, dropReturns_joinWith]
  congr 1
  simpa [final] using ended

theorem statistics_withReturns :
    (Passes.ofSource pipeline.settings (withReturns source)).statistics =
      (Passes.ofSource pipeline.settings source).statistics := by
  have lines : (SourceLine.split (withReturns source)).length =
      (SourceLine.split source).length := by
    obtain ⟨before, last, lines, returned⟩ := exists_lines_withReturns source
    simp [SourceLine.length_split, lines, returned]
  simp only [Passes.statistics, removed_withReturns plain single, scan_withReturns plain single,
    count_expanded_withReturns plain single]
  exact congrArg (fun n => Statistics.mk n _ _ _ _ _ _) lines

end Returns

theorem same_run_with_returns (pipeline : Pipeline)
    (single : ∀ marker ∈ pipeline.markers, '\n' ∉ marker) {source : Text} (plain : '\r' ∉ source) :
    let combined := fun text => (Passes.ofSource pipeline.settings text).expanded.text
    (∀ {m : Type → Type} [Monad m] [LawfulMonad m] (accept : Path → Text → m Unit) (text : Text),
      (pipeline.process (Writer.accepting accept) text).run = do
        accept pipeline.combinedPath (combined text)
        (pipeline.wrappers text).forM (Artifact.handTo accept)
        return .ok (pipeline.report text)) ∧
    pipeline.report (withReturns source) = pipeline.report source ∧
    pipeline.wrappers (withReturns source) = pipeline.wrappers source ∧
    dropReturns (combined (withReturns source)) = combined source := by
  intro combined
  have scan := scan_withReturns plain single
  refine ⟨fun accept text => run_process_accepting pipeline accept text, ?_, ?_,
    dropReturns_combined plain single⟩
  · simp only [report, Passes.report, artifacts, statistics_withReturns plain single, scan]
    rfl
  · rw [wrappers, wrappers, scan]

theorem same_run_of_class_with_returns :
    let pipeline : Pipeline := ⟨.standard, standardOutputFile, ⟨"out".toList⟩, .builtin⟩
    let source := ("[System]\npublic partial class A\n\x7b\n" ++
      "public int X \x7b get; set; \x7d = 1;\npublic int\n\x7d").toList
    let returned := pipeline.report (withReturns source)
    (∀ marker ∈ pipeline.markers, '\n' ∉ marker) ∧ '\r' ∉ source ∧
    withReturns source ≠ source ∧
    returned.classes = [⟨"A".toList, [['X']], 1⟩] ∧
    returned.diagnostics = [⟨4, .unrecognizedMember,
      "skipping unrecognized member in class A: public int".toList⟩] ∧
    returned.statistics = ⟨6, 1, 1, 1, 1, 1, 1⟩ ∧
    dropReturns (Passes.ofSource pipeline.settings (withReturns source)).expanded.text =
      ("public partial class A\n\x7b\nprivate int x = 1;\n" ++
        "public int X \x7b get \x7b return x; \x7d set \x7b x = value; \x7d \x7d\n" ++
        "public int\n\x7d").toList := by
  intro pipeline source returned
  have single : ∀ marker ∈ pipeline.markers, '\n' ∉ marker := by decide
  have plain : '\r' ∉ source := by decide
  obtain ⟨-, report, -, text⟩ := same_run_with_returns pipeline single plain
  refine ⟨single, plain, by decide, ?_, ?_, ?_, text.trans ?_⟩
  · exact (congrArg Report.classes report).trans (by decide +kernel)
  · exact (congrArg Report.diagnostics report).trans (by decide +kernel)
  · exact (congrArg Report.statistics report).trans (by decide +kernel)
  · decide +kernel

end Pipeline

end SchemaClasses
