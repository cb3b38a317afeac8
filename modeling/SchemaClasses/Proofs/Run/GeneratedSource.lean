import SchemaClasses.Proofs.Run.CombinedText
import SchemaClasses.Proofs.Schema.SourceLines

set_option autoImplicit false

namespace SchemaClasses.Pipeline

open Schema Annotation

variable {pipeline : Pipeline} {source : Text}

theorem mem_combined (single : ∀ marker ∈ pipeline.markers, '\n' ∉ marker) {line : Text}
    (member : line ∈ Text.splitOn '\n' (Passes.ofSource pipeline.settings source).expanded.text) :
    line ∈ pipeline.keptLines source ∨ ∃ written property,
      Shorthand.parse? written = some property ∧
        line ∈ property.expand.lines pipeline.settings.layout := by
  rw [splitOn_combined single] at member
  obtain ⟨written, kept, inside⟩ := List.mem_flatMap.mp member
  rcases Shorthand.cases_of_mem_rewritten (newline_notMem_of_mem_keptLines kept) inside with
    ⟨rfl, -⟩ | ⟨property, parsed, added⟩
  · exact .inl kept
  · exact .inr ⟨written, property, parsed, added⟩

theorem annotation_notMem_combined (single : ∀ marker ∈ pipeline.markers, '\n' ∉ marker)
    {lines : List Text} (cut : Text.splitOn '\n' source = lines ++ [[]]) {marker line : Text}
    (written : Annotates marker line) (listed : marker ∈ pipeline.markers) :
    line ∉ Text.splitOn '\n' (Passes.ofSource pipeline.settings source).expanded.text := by
  intro member
  -- What is kept of the source is marked at most as its last line, and that one is empty here.
  rcases mem_combined single member with kept | ⟨text, property, parsed, added⟩
  · rw [keptLines, cut] at kept
    have last := getLast?_of_marked kept ⟨marker, listed, written.marked⟩
    rw [List.getLast?_concat] at last
    obtain rfl := Option.some.inj last
    cases written.head?_trimStart
  · exact Shorthand.head?_ne_of_mem_lines parsed added written.head?_trimStart

theorem generated_source_scans_like_schema (pipeline : Pipeline) (document : Json.Value)
    (path : Path) (namespaceName : Text) (object : document.isObject = true)
    (namespaceLine : '\n' ∉ namespaceName) (single : ∀ marker ∈ pipeline.markers, '\n' ∉ marker)
    (readable : ∀ model ∈ classes document (rootName document path), model.Readable) :
    let models := classes document (rootName document path)
    ∃ source, generate document namespaceName (rootName document path) = .ok source ∧
      let report := pipeline.report source
      let combined := (Passes.ofSource pipeline.settings source).expanded.text
      (∀ {m : Type → Type} [Monad m] [LawfulMonad m] (accept : Path → Text → m Unit),
        (pipeline.process (Writer.accepting accept) source).run = do
          accept pipeline.combinedPath combined
          (report.classes.map pipeline.style.artifact).forM (Artifact.handTo accept)
          return .ok report) ∧
      report.classes.map (fun block => (block.name, block.properties)) =
        models.map (fun model => (model.name, model.properties.map PropertyModel.name)) ∧
      report.diagnostics = [] ∧
      report.statistics.wrappersWritten = models.length ∧
      report.writtenFiles = pipeline.combinedPath ::
        report.classes.map (fun block => (pipeline.style.artifact block).path) ∧
      (pipeline.markers = Settings.standard.annotationMarkers →
        ∀ line ∈ Text.splitOn '\n' combined, line ≠ ClassModel.annotationLine ∧
          ∀ model ∈ models, ∀ property ∈ model.properties, line ≠ property.annotationLine) := by
  intro models
  have plain : ∀ model ∈ models, model.Plain := plain_classes (plain_rootName document path) document
  have cut : Text.splitOn '\n' (Text.joinWith '\n' (sourceLines namespaceName models)) =
      sourceLines namespaceName models :=
    Text.splitOn_joinWith (by simp [sourceLines]) fun line member =>
      newline_notMem_sourceLines namespaceLine plain member
  refine ⟨Text.joinWith '\n' (sourceLines namespaceName models), if_pos object, ?_⟩
  intro report combined
  have kept : pipeline.keptLines (Text.joinWith '\n' (sourceLines namespaceName models)) =
      remaining pipeline.markers (sourceLines namespaceName models) := congrArg _ cut
  have found := ofLines_sourceLines pipeline.markers namespaceName plain readable
  rw [← kept, ← scan_eq single] at found
  have count : report.classes.length = models.length := by
    have lengths := congrArg List.length found.1
    rwa [List.length_map, List.length_map] at lengths
  have lines : sourceLines namespaceName models =
      (headerLines namespaceName ++ models.flatMap ClassModel.lines ++ [['\x7d']]) ++ [[]] := by
    simp [sourceLines]
  refine ⟨?_, found.1, found.2, count, ?_, ?_⟩
  · intro m _ _ accept
    exact run_process_accepting pipeline accept _
  · exact congrArg (pipeline.combinedPath :: ·) List.map_map
  · intro standard line member
    constructor
    · rintro rfl
      exact annotation_notMem_combined single (cut.trans lines) ClassModel.annotates_annotationLine
        (by rw [standard]; decide) member
    · rintro model - property - rfl
      exact annotation_notMem_combined single (cut.trans lines) property.annotates_annotationLine
        (by rw [standard]; decide) member

def disguisedSchema : Json.Value :=
  .object [
    ("title".toList, .string "rig settings".toList),
    ("description".toList, .string "One rig.\n    \x7d\n    public partial class Fake\n[System]".toList),
    ("properties".toList, .object [
      ("name\"\n    \x7b".toList, .object [
        ("type".toList, .string "string".toList),
        ("default".toList, .string "\x7d\n\"public int Count;\" ]".toList)]),
      ("arms".toList, .object [
        ("type".toList, .string "array".toList),
        ("items".toList, .object [
          ("properties".toList, .object [
            ("class".toList, .object [
              ("description".toList, .string "[Newtonsoft]\r\n\tpublic int Bad".toList),
              ("type".toList, .string "integer".toList)])])])])])]

theorem disguised_schema_scans :
    let pipeline : Pipeline := ⟨.standard, standardOutputFile, ⟨"out".toList⟩, .builtin⟩
    let path : Path := ⟨"rig.json".toList⟩
    let models := classes disguisedSchema (rootName disguisedSchema path)
    disguisedSchema.isObject = true ∧ '\n' ∉ "Gen".toList ∧
    (∀ marker ∈ pipeline.markers, '\n' ∉ marker) ∧ (∀ model ∈ models, model.Readable) ∧
    ∃ source, generate disguisedSchema "Gen".toList (rootName disguisedSchema path) = .ok source ∧
      (pipeline.process (Writer.accepting fun _ _ => (pure () : Id Unit)) source).run =
        pure (.ok (pipeline.report source)) ∧
      (pipeline.report source).classes.map (fun block => (block.name, block.properties)) =
        [("RigSettings".toList, ["Name".toList, "Arms".toList]),
          ("ArmsItem".toList, ["Class".toList])] ∧
      (pipeline.report source).diagnostics = [] ∧
      ClassModel.annotationLine ∉ Text.splitOn '\n'
        (Passes.ofSource pipeline.settings source).expanded.text := by
  intro pipeline path models
  have single : ∀ marker ∈ pipeline.markers, '\n' ∉ marker := by decide
  have readable : ∀ model ∈ models, model.Readable := by decide +kernel
  have names : models.map (fun model => (model.name, model.properties.map PropertyModel.name)) =
      [("RigSettings".toList, ["Name".toList, "Arms".toList]),
        ("ArmsItem".toList, ["Class".toList])] := by
    decide +kernel
  obtain ⟨source, generated, runs, found, silent, -, -, clean⟩ :=
    generated_source_scans_like_schema pipeline disguisedSchema path "Gen".toList rfl (by decide)
      single readable
  have ignored (artifacts : List Artifact) :
      artifacts.forM (Artifact.handTo fun _ _ => (pure () : Id Unit)) = pure () := by
    induction artifacts with
    | nil => rfl
    | cons artifact rest ih => exact ih
  refine ⟨rfl, by decide, single, readable, source, generated, ?_, found.trans names, silent,
    fun member => (clean rfl _ member).1 rfl⟩
  rw [runs, ignored]
  rfl

end SchemaClasses.Pipeline
