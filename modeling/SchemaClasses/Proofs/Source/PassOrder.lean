import SchemaClasses.Proofs.Source.ExpandedLines
import SchemaClasses.Proofs.Source.StrippedText

set_option autoImplicit false

namespace SchemaClasses.Shorthand

open Annotation Text

theorem not_convertible_of_marked {markers : List Text} {line : Text}
    (marked : Marked markers line) : isConvertible line = false := by
  obtain ⟨marker, -, before, after, form⟩ := marked
  obtain ⟨ending, whole, returns⟩ := exists_dropReturn_append line
  have blank : ∀ c ∈ ending, isBlank c = true := by
    intro c member
    rw [returns c member]
    decide
  rw [isConvertible, whole, trim_append_blanks blank, form]
  exact not_convertible_of_last (by decide) (by decide) (List.suffix_append _ [']'])

def linesFor (layout : PropertyLayout) (line : Text) : List Text :=
  splitOn '\n' (rewritten layout line)

theorem linesFor_ne_nil (layout : PropertyLayout) (line : Text) : linesFor layout line ≠ [] :=
  splitOn_ne_nil '\n' _

theorem linesFor_of_marked {markers : List Text} {line : Text} (single : '\n' ∉ line)
    (marked : Marked markers line) (layout : PropertyLayout) : linesFor layout line = [line] := by
  rw [linesFor, rewritten_of_not_convertible (not_convertible_of_marked marked),
    splitOn_of_notMem single]

theorem unmarked_linesFor (markers : List Text) (layout : PropertyLayout) {line : Text}
    (single : '\n' ∉ line) : unmarked markers (linesFor layout line) =
      if Marked markers line then [] else linesFor layout line := by
  split
  · rename_i marked
    rw [linesFor_of_marked single marked]
    simp [unmarked, marked]
  · rename_i kept
    exact List.filter_eq_self.mpr fun inner member =>
      decide_eq_true (not_marked_of_mem_rewritten single kept member)

theorem marked_linesFor (markers : List Text) (layout : PropertyLayout) {line : Text}
    (single : '\n' ∉ line) : (linesFor layout line).filter (fun inner => Marked markers inner) =
      if Marked markers line then [line] else [] := by
  split
  · rename_i marked
    rw [linesFor_of_marked single marked]
    simp [marked]
  · rename_i kept
    refine List.filter_eq_nil_iff.mpr fun inner member => ?_
    simpa using not_marked_of_mem_rewritten single kept member

theorem strip_flatMap_linesFor (markers : List Text) (layout : PropertyLayout) {lines : List Text}
    (single : ∀ line ∈ lines, '\n' ∉ line) :
    remaining markers (lines.flatMap (linesFor layout)) =
        (remaining markers lines).flatMap (linesFor layout) ∧
      dropped markers (lines.flatMap (linesFor layout)) = dropped markers lines := by
  induction lines with
  | nil => exact ⟨rfl, rfl⟩
  | cons line rest ih =>
    obtain ⟨here, later⟩ := List.forall_mem_cons.mp single
    cases rest with
    | nil =>
      -- The last line always stays, but of its expansion only one line is the last.
      have kept : ∀ inner ∈ (linesFor layout line).dropLast, ¬ Marked markers inner :=
        fun inner member => not_marked_of_mem_dropLast_rewritten here member markers
      constructor
      · simpa [remaining] using remaining_eq_self kept
      · simpa [dropped] using dropped_eq_nil kept
    | cons next rest =>
      obtain ⟨kept, gone⟩ := ih later
      have behind : (next :: rest).flatMap (linesFor layout) ≠ [] := by
        simp [linesFor_ne_nil]
      rw [List.flatMap_cons, remaining_append markers _ behind, dropped_append markers _ behind,
        kept, gone, unmarked_linesFor markers layout here, marked_linesFor markers layout here,
        remaining_cons, dropped_cons]
      split <;> exact ⟨rfl, rfl⟩

theorem countP_remaining (markers lines : List Text) :
    (remaining markers lines).countP isConvertible = lines.countP isConvertible := by
  induction lines with
  | nil => rfl
  | cons line rest ih =>
    cases rest with
    | nil => rfl
    | cons next rest =>
      rw [remaining_cons]
      split
      · rename_i marked
        have other : ¬ isConvertible line = true := by simp [not_convertible_of_marked marked]
        rw [ih, List.countP_cons_of_neg other]
      · rw [List.countP_cons, ih, ← List.countP_cons]

theorem joinWith_map_rewritten (layout : PropertyLayout) {lines : List Text}
    (nonempty : lines ≠ []) : joinWith '\n' (lines.map (rewritten layout)) =
      joinWith '\n' (lines.flatMap (linesFor layout)) := by
  have pieces := splitOn_joinWith_rewritten layout nonempty
  exact (joinWith_splitOn '\n' _).symm.trans (congrArg (joinWith '\n') pieces)

theorem passes_commute {markers : List Text} (single : ∀ marker ∈ markers, '\n' ∉ marker)
    (layout : PropertyLayout) (source : Text) :
    let expanded := expandLines layout (SourceLine.split source)
    let stripped := strip markers source
    let behind := expandLines layout (SourceLine.split stripped.text)
    (strip markers expanded.text).text = behind.text ∧
    (strip markers expanded.text).removed = stripped.removed ∧
    expanded.count = behind.count := by
  intro expanded stripped behind
  have plain : ∀ line ∈ splitOn '\n' source, '\n' ∉ line :=
    fun line member => notMem_of_mem_splitOn member
  have first : expanded = ⟨joinWith '\n' ((splitOn '\n' source).map (rewritten layout)),
      (splitOn '\n' source).countP isConvertible⟩ := expandLines_split layout source
  have second : behind =
      ⟨joinWith '\n' ((remaining markers (splitOn '\n' source)).map (rewritten layout)),
        (remaining markers (splitOn '\n' source)).countP isConvertible⟩ := by
    rw [← splitOn_strip single]
    exact expandLines_split layout stripped.text
  have lines : splitOn '\n' expanded.text = (splitOn '\n' source).flatMap (linesFor layout) := by
    rw [first]
    exact splitOn_joinWith_rewritten layout (splitOn_ne_nil '\n' source)
  obtain ⟨kept, gone⟩ := strip_flatMap_linesFor markers layout plain
  refine ⟨?_, ?_, ?_⟩
  · rw [strip_eq single, lines, kept, second, joinWith_map_rewritten layout
      (remaining_ne_nil markers (splitOn_ne_nil '\n' source))]
  · rw [strip_eq single, lines, gone]
    exact (congrArg Stripped.removed (strip_eq single source)).symm
  · rw [first, second, countP_remaining]

theorem passes_commute_over_last_property :
    let markers : List Text := ["System".toList, "get".toList]
    let source := "[System]\r\npublic\tint\ta \x7b get; set; \x7d = x[get];".toList
    let expanded := expandLines .block (SourceLine.split source)
    let combined := ("private \x7b get; = x[get];\npublic\tint\ta \x7b Get;\n\x7b\n" ++
      "\tget \x7b return get;; \x7d\n\tset \x7b get; = value; \x7d\n\x7d").toList
    (∀ marker ∈ markers, '\n' ∉ marker) ∧
    (strip markers expanded.text).text = combined ∧
    (strip markers expanded.text).removed = 1 ∧ expanded.count = 1 := by
  intro markers source expanded combined
  have single : ∀ marker ∈ markers, '\n' ∉ marker := by decide
  have behind : expandLines .block (SourceLine.split (strip markers source).text) =
      ⟨combined, 1⟩ := by
    decide +kernel
  have removed : (strip markers source).removed = 1 := by decide +kernel
  obtain ⟨text, same, count⟩ := passes_commute single .block source
  rw [behind] at text count
  exact ⟨single, text, same.trans removed, count⟩

end SchemaClasses.Shorthand
