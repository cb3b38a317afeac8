import SchemaClasses.Proofs.Source.AnnotationLines
import SchemaClasses.Settings.Basic

set_option autoImplicit false

namespace SchemaClasses.Annotation

open Text

section SameMarkers

variable {first second : List Text} (same : ∀ marker, marker ∈ first ↔ marker ∈ second)

include same

theorem marked_congr (line : Text) : Marked first line ↔ Marked second line := by
  simp only [Marked, same]

theorem remaining_congr (lines : List Text) : remaining first lines = remaining second lines := by
  simp only [remaining, marked_congr same]

theorem dropped_congr (lines : List Text) : dropped first lines = dropped second lines := by
  simp only [dropped, marked_congr same]

end SameMarkers

theorem getLast?_of_marked {markers lines : List Text} {line : Text}
    (member : line ∈ remaining markers lines) (marked : Marked markers line) :
    lines.getLast? = some line := by
  rcases List.mem_append.mp member with kept | last
  · exact absurd marked (by simpa using (List.mem_filter.mp kept).2)
  · exact Option.mem_toList.mp last

section NewlineFree

variable {markers : List Text} (single : ∀ marker ∈ markers, '\n' ∉ marker)

include single

theorem splitOn_strip (source : Text) :
    splitOn '\n' (strip markers source).text = remaining markers (splitOn '\n' source) := by
  rw [strip_eq single]
  exact splitOn_joinWith (remaining_ne_nil markers (splitOn_ne_nil '\n' source))
    fun line member => notMem_of_mem_splitOn (mem_of_mem_remaining member)

theorem not_marked_of_mem_dropLast_strip {source line : Text}
    (member : line ∈ (splitOn '\n' (strip markers source).text).dropLast) :
    ¬ Marked markers line := by
  rw [splitOn_strip single, dropLast_remaining] at member
  simpa using (List.mem_filter.mp member).2

theorem strip_eq_self {text : Text}
    (unmarked : ∀ line ∈ (splitOn '\n' text).dropLast, ¬ Marked markers line) :
    strip markers text = ⟨text, 0⟩ := by
  rw [strip_eq single, remaining_eq_self unmarked, dropped_eq_nil unmarked, joinWith_splitOn]
  rfl

end NewlineFree

theorem strip_of_same_markers {first second : List Text}
    (single : ∀ marker ∈ first, '\n' ∉ marker)
    (same : ∀ marker, marker ∈ first ↔ marker ∈ second) (source : Text) :
    let stripped := strip first source
    strip second source = stripped ∧
      ∀ markers ∈ [first, second], strip markers stripped.text = ⟨stripped.text, 0⟩ := by
  intro stripped
  have also : ∀ marker ∈ second, '\n' ∉ marker :=
    fun marker member => single marker ((same marker).mpr member)
  have unmarked : ∀ line ∈ (splitOn '\n' stripped.text).dropLast, ¬ Marked first line :=
    fun line member => not_marked_of_mem_dropLast_strip single member
  constructor
  · rw [strip_eq also, ← remaining_congr same, ← dropped_congr same]
    exact (strip_eq single source).symm
  · simp only [List.forall_mem_cons, List.not_mem_nil, false_implies, implies_true, and_true]
    constructor
    · exact strip_eq_self single unmarked
    · exact strip_eq_self also fun line member =>
        mt (marked_congr same line).mpr (unmarked line member)

theorem strip_of_repeated_markers :
    let first : List Text := ["Sys".toList, "System".toList]
    let second : List Text := ["System".toList, "Sys".toList, "System".toList]
    let source := "[System][Sys]\r\npublic int A;\n [System.Obsolete]\n[Sys]".toList
    let stripped : Stripped := ⟨"public int A;\n[Sys]".toList, 2⟩
    (∀ marker ∈ first, '\n' ∉ marker) ∧ (∀ marker, marker ∈ first ↔ marker ∈ second) ∧
    strip first source = stripped ∧ strip second source = stripped ∧
    ∀ markers ∈ [first, second], strip markers stripped.text = ⟨stripped.text, 0⟩ := by
  intro first second source stripped
  have single : ∀ marker ∈ first, '\n' ∉ marker := by decide
  have within : ∀ marker ∈ first, marker ∈ second := by decide
  have around : ∀ marker ∈ second, marker ∈ first := by decide
  have same : ∀ marker, marker ∈ first ↔ marker ∈ second :=
    fun marker => ⟨within marker, around marker⟩
  have left : strip first source = stripped := by decide +kernel
  have facts := strip_of_same_markers single same source
  rw [left] at facts
  exact ⟨single, same, left, facts⟩

theorem annotation_left_iff {markers : List Text} (single : ∀ marker ∈ markers, '\n' ∉ marker)
    (source : Text) :
    let lines := splitOn '\n' source
    let left := splitOn '\n' (strip markers source).text
    (∀ line ∈ left.dropLast, ¬ Marked markers line) ∧
    left.getLast? = lines.getLast? ∧
    ((∃ line ∈ left, Marked markers line) ↔ ∃ line ∈ lines.getLast?, Marked markers line) ∧
    (source = [] ∨ source.getLast? = some '\n' → ∀ line ∈ left, ¬ Marked markers line) := by
  intro lines left
  have early : ∀ line ∈ left.dropLast, ¬ Marked markers line :=
    fun line member => not_marked_of_mem_dropLast_strip single member
  have kept : left = remaining markers lines := splitOn_strip single source
  have last : left.getLast? = lines.getLast? := by
    rw [kept, getLast?_remaining]
  have only : (∃ line ∈ left, Marked markers line) ↔
      ∃ line ∈ lines.getLast?, Marked markers line := by
    constructor
    · rintro ⟨line, member, marked⟩
      exact ⟨line, getLast?_of_marked (kept ▸ member) marked, marked⟩
    · rintro ⟨line, final, marked⟩
      exact ⟨line, List.mem_of_getLast? (last.trans final), marked⟩
  refine ⟨early, last, only, fun ended line member marked => ?_⟩
  -- Behind the last line end stands the empty line, which is no annotation.
  obtain ⟨pieces, cut⟩ := exists_splitOn_append ended
  obtain ⟨final, here, found⟩ := only.mp ⟨line, member, marked⟩
  have whole : lines = pieces ++ [[]] := by simpa using cut []
  rw [whole, List.getLast?_concat] at here
  obtain rfl := Option.some.inj here
  exact not_marked_empty markers found

theorem no_annotation_left_of_ended_lines :
    let markers := Settings.standard.annotationMarkers
    let source := "[System.Serializable]\r\npublic int[] A;\n\t[Newtonsoft.Json.JsonIgnore]\n".toList
    (∀ marker ∈ markers, '\n' ∉ marker) ∧ source.getLast? = some '\n' ∧
    splitOn '\n' (strip markers source).text = ["public int[] A;".toList, []] ∧
    ∀ line ∈ splitOn '\n' (strip markers source).text, ¬ Marked markers line := by
  intro markers source
  have single : ∀ marker ∈ markers, '\n' ∉ marker := by decide
  have ended : source.getLast? = some '\n' := by decide
  have facts := annotation_left_iff single source
  exact ⟨single, ended, by decide +kernel, facts.2.2.2 (.inr ended)⟩

theorem last_annotation_left :
    let markers := Settings.standard.annotationMarkers
    let source := "[Newtonsoft.Json.JsonIgnore]\n[System.Serializable]".toList
    (∀ marker ∈ markers, '\n' ∉ marker) ∧
    strip markers source = ⟨"[System.Serializable]".toList, 1⟩ ∧
    ∃ line ∈ splitOn '\n' (strip markers source).text, Marked markers line := by
  decide +kernel

end SchemaClasses.Annotation
