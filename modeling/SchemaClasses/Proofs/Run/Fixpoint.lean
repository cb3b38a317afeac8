import SchemaClasses.Proofs.Run.CombinedText
import SchemaClasses.Proofs.Source.ExpandedLines

set_option autoImplicit false

namespace SchemaClasses.Pipeline

open Annotation Shorthand

section NewlineFree

variable {pipeline : Pipeline} (single : ∀ marker ∈ pipeline.markers, '\n' ∉ marker) (source : Text)

include single

theorem not_convertible_combined : ∀ line ∈
    Text.splitOn '\n' (Passes.ofSource pipeline.settings source).expanded.text,
      isConvertible line = false := by
  intro line member
  rw [splitOn_combined single] at member
  obtain ⟨outer, kept, inside⟩ := List.mem_flatMap.mp member
  exact not_convertible_of_mem_rewritten (newline_notMem_of_mem_keptLines kept) inside

theorem not_marked_combined : ∀ line ∈
    (Text.splitOn '\n' (Passes.ofSource pipeline.settings source).expanded.text).dropLast,
      ¬ Marked pipeline.markers line := by
  intro line member
  rw [splitOn_combined single] at member
  obtain ⟨before, last, input⟩ := (List.eq_nil_or_concat (Text.splitOn '\n' source)).resolve_left
    (Text.splitOn_ne_nil '\n' source)
  rw [List.concat_eq_append] at input
  -- All kept lines but the last one are unmarked, and so is what the last one is expanded to.
  have kept : pipeline.keptLines source = unmarked pipeline.markers before ++ [last] := by
    rw [keptLines, input, remaining_concat]
  have plain {outer : Text} (listed : outer ∈ unmarked pipeline.markers before ++ [last]) :
      '\n' ∉ outer :=
    newline_notMem_of_mem_keptLines (kept ▸ listed)
  rw [kept, List.flatMap_append, List.flatMap_singleton,
    List.dropLast_append_of_ne_nil (Text.splitOn_ne_nil '\n' _)] at member
  rcases List.mem_append.mp member with early | late
  · obtain ⟨outer, listed, inside⟩ := List.mem_flatMap.mp early
    exact not_marked_of_mem_rewritten (plain (List.mem_append_left _ listed))
      (mem_unmarked.mp listed).2 inside
  · exact not_marked_of_mem_dropLast_rewritten (plain (by simp)) late pipeline.markers

end NewlineFree

theorem passes_of_settled (pipeline : Pipeline)
    (single : ∀ marker ∈ pipeline.markers, '\n' ∉ marker) {text : Text}
    (unmarked : ∀ line ∈ (Text.splitOn '\n' text).dropLast, ¬ Marked pipeline.markers line)
    (other : ∀ line ∈ Text.splitOn '\n' text, isConvertible line = false) :
    let passes := Passes.ofSource pipeline.settings text
    passes.stripped = ⟨text, 0⟩ ∧ passes.expanded = ⟨text, 0⟩ := by
  intro passes
  have stripped : passes.stripped = ⟨text, 0⟩ := strip_eq_self single unmarked
  have expanded : passes.expanded = ⟨text, 0⟩ := by
    change expandLines _ (SourceLine.split passes.stripped.text) = _
    rw [stripped]
    exact expandLines_eq_self _ other
  exact ⟨stripped, expanded⟩

theorem combined_text_is_fixpoint (pipeline : Pipeline)
    (single : ∀ marker ∈ pipeline.markers, '\n' ∉ marker) (source : Text)
    (layout : PropertyLayout) :
    let combined := (Passes.ofSource pipeline.settings source).expanded.text
    let again : Pipeline := { pipeline with settings := { pipeline.settings with layout := layout } }
    let counters := (again.report combined).statistics
    (∀ {m : Type → Type} [Monad m] [LawfulMonad m] (accept : Path → Text → m Unit),
      (pipeline.process (Writer.accepting accept) source).run = (do
        accept pipeline.combinedPath combined
        (pipeline.wrappers source).forM (Artifact.handTo accept)
        return .ok (pipeline.report source)) ∧
      (again.process (Writer.accepting accept) combined).run = do
        accept pipeline.combinedPath combined
        (again.wrappers combined).forM (Artifact.handTo accept)
        return .ok (again.report combined)) ∧
    counters.strippedAnnotations = 0 ∧ counters.expandedProperties = 0 := by
  intro combined again counters
  obtain ⟨stripped, expanded⟩ := passes_of_settled again single
    (not_marked_combined single source) (not_convertible_combined single source)
  have text : (Passes.ofSource again.settings combined).expanded.text = combined :=
    congrArg (fun expansion => expansion.text) expanded
  refine ⟨fun accept => ⟨?_, ?_⟩, congrArg Stripped.removed stripped,
    congrArg Expansion.count expanded⟩
  · rw [run_process_accepting]
  · rw [run_process_accepting, text]
    rfl

theorem second_run_in_other_layout :
    let pipeline : Pipeline :=
      ⟨{ Settings.standard with layout := .block }, standardOutputFile, ⟨"out".toList⟩, .builtin⟩
    let source := ("[System][Newtonsoft]\n" ++
      "public  int\r x \x7b get; set; \x7d\t= new[] \x7b 1 \x7d;\n[System]").toList
    let combined := ("private  int\r = new[] \x7b 1 \x7d;\npublic  Int\r\n\x7b\n" ++
      "\tget \x7b return int\r; \x7d\n\tset \x7b int\r = value; \x7d\n\x7d\n[System]").toList
    let again : Pipeline := ⟨Settings.standard, standardOutputFile, ⟨"out".toList⟩, .builtin⟩
    (∀ marker ∈ pipeline.markers, '\n' ∉ marker) ∧
    (∀ {m : Type → Type} [Monad m] [LawfulMonad m] (accept : Path → Text → m Unit),
      (pipeline.process (Writer.accepting accept) source).run = (do
        accept pipeline.combinedPath combined
        (pipeline.wrappers source).forM (Artifact.handTo accept)
        return .ok (pipeline.report source)) ∧
      (again.process (Writer.accepting accept) combined).run = do
        accept pipeline.combinedPath combined
        (again.wrappers combined).forM (Artifact.handTo accept)
        return .ok (again.report combined)) ∧
    (again.report combined).statistics.strippedAnnotations = 0 ∧
    (again.report combined).statistics.expandedProperties = 0 := by
  intro pipeline source combined again
  have single : ∀ marker ∈ pipeline.markers, '\n' ∉ marker := by decide
  have text : (Passes.ofSource pipeline.settings source).expanded.text = combined := by
    decide +kernel
  have facts := combined_text_is_fixpoint pipeline single source .inline
  rw [text] at facts
  exact ⟨single, facts⟩

end SchemaClasses.Pipeline
