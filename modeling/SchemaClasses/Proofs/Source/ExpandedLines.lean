import SchemaClasses.Proofs.Source.AnnotationLines
import SchemaClasses.Proofs.Source.Expansion

set_option autoImplicit false

/-!
The lines that an expansion writes. A line with the form holds four spaces before its first equals
sign, which no written line does, and it ends in a semicolon; so no written line has the form
(`not_convertible_of_mem_lines`), and none is an annotation (`not_marked_of_mem_lines`).
-/

namespace SchemaClasses

namespace ExpandedProperty

theorem closed_getter (property : ExpandedProperty) : ['\x7d'] <:+ property.getter :=
  List.IsSuffix.trans (by decide) (List.suffix_append _ "; \x7d".toList)

theorem closed_setter (property : ExpandedProperty) : ['\x7d'] <:+ property.setter :=
  List.IsSuffix.trans (by decide) (List.suffix_append _ " = value; \x7d".toList)

theorem cases_of_mem_lines {property : ExpandedProperty} {layout : PropertyLayout} {added : Text}
    (member : added ∈ property.lines layout) :
    added = property.fieldLine ∨ added = property.headLine ∨
      ['\x7b'] <:+ added ∨ ['\x7d'] <:+ added := by
  have indented {accessor : Text} (closed : ['\x7d'] <:+ accessor) :
      ['\x7d'] <:+ property.indent ++ '\t' :: accessor :=
    closed.trans ((List.suffix_cons '\t' accessor).trans (List.suffix_append _ _))
  cases layout with
  | inline =>
    simp only [lines, List.mem_cons, List.not_mem_nil, or_false] at member
    rcases member with rfl | rfl
    · exact .inl rfl
    · have closed : ['\x7d'] <:+ " \x7d".toList := by decide
      exact .inr (.inr (.inr (closed.trans (List.suffix_append _ _))))
  | block =>
    simp only [lines, List.mem_cons, List.not_mem_nil, or_false] at member
    rcases member with rfl | rfl | rfl | rfl | rfl | rfl
    · exact .inl rfl
    · exact .inr (.inl rfl)
    · exact .inr (.inr (.inl (List.suffix_append _ _)))
    · exact .inr (.inr (.inr (indented property.closed_getter)))
    · exact .inr (.inr (.inr (indented property.closed_setter)))
    · exact .inr (.inr (.inr (List.suffix_append _ _)))

end ExpandedProperty

namespace Shorthand

open Text

theorem exists_head_of_isConvertible {line : Text} (convertible : isConvertible line = true) :
    ∃ head tail : Text, trim line = head ++ tail ∧ 4 ≤ head.count ' ' ∧
      (∀ c ∈ head, c ≠ '=' ∧ c ≠ ']') ∧ defaultTail tail = true := by
  obtain ⟨front, accessors, tail, parts, kinds, folded, valid⟩ :=
    exists_parts_of_hasForm convertible
  refine ⟨front ++ accessors, tail, parts, ?_, List.forall_mem_append.mpr ⟨?_, ?_⟩, valid⟩
  · rw [List.count_append, count_space_of_accessors folded]
    omega
  · intro c member
    constructor <;> rintro rfl <;> exact absurd (kinds _ member) (by decide)
  · intro c member
    have read : foldCase c ∈ " \x7b get; set; \x7d".toList := folded ▸ List.mem_map_of_mem member
    constructor <;> rintro rfl <;> exact absurd read (by decide)

theorem four_spaces_of_isConvertible {line : Text} (convertible : isConvertible line = true) :
    4 ≤ ((trim line).takeWhile (· ≠ '=')).count ' ' := by
  obtain ⟨head, tail, parts, spaces, kinds, -⟩ := exists_head_of_isConvertible convertible
  rw [parts, List.takeWhile_append_of_pos fun c member => decide_eq_true (kinds c member).1,
    List.count_append]
  omega

theorem getLast?_of_defaultTail {tail : Text} (valid : defaultTail tail = true) :
    tail.getLast? = some ';' := by
  unfold defaultTail at valid
  split at valid
  · rename_i rest _ start
    simp only [Bool.and_eq_true, beq_iff_eq] at valid
    obtain ⟨before, last⟩ := List.getLast?_eq_some_iff.mp valid.1
    rw [← indentOf_append_trimStart tail, start, last, ← List.cons_append, ← List.append_assoc,
      List.getLast?_concat]
  · contradiction

theorem not_convertible_of_last {c : Char} (visible : isBlank c = false) (other : c ≠ ';')
    {line : Text} (last : [c] <:+ line) : isConvertible line = false := by
  obtain ⟨s, rfl⟩ := last
  rw [Bool.eq_false_iff]
  intro convertible
  obtain ⟨head, tail, parts, -, -, valid⟩ := exists_head_of_isConvertible convertible
  have last : (trim (s ++ [c])).getLast? = some ';' := by
    rw [parts, List.getLast?_append, getLast?_of_defaultTail valid]
    rfl
  rw [trim_concat visible, List.getLast?_concat] at last
  exact other (Option.some.inj last)

theorem parse?_pieces {line : Text} {property : Shorthand} (parsed : parse? line = some property) :
    ' ' ∉ property.modifier ∧ ' ' ∉ property.typeName ∧ ' ' ∉ property.name ∧
      ']' ∉ property.name := by
  obtain ⟨others, pieces⟩ := exists_pieces parsed
  have convertible : isConvertible line = true := by
    rw [← parse?_isSome, parsed]
    rfl
  obtain ⟨head, tail, parts, spaces, kinds, -⟩ := exists_head_of_isConvertible convertible
  have piece {part : Text}
      (member : part ∈ property.modifier :: property.typeName :: property.name :: others) :
      ' ' ∉ part := notMem_of_mem_splitOn (pieces ▸ member)
  -- The name ends at the third space at the latest, and the fourth one is in the accessors.
  have early : property.name ∈ (splitOn ' ' (head ++ tail)).take 3 := by
    rw [← parts, pieces]
    simp
  refine ⟨piece (by simp), piece (by simp), piece (by simp), fun inside => ?_⟩
  exact (kinds _ (mem_of_mem_take_splitOn (by omega) early inside)).2 rfl

theorem count_takeWhile_le (c sep : Char) (before after : Text) :
    ((before ++ sep :: after).takeWhile (· ≠ sep)).count c ≤ before.count c := by
  rw [List.takeWhile_append]
  split
  · simp
  · exact (List.takeWhile_prefix _).sublist.count_le c

theorem not_convertible_fieldLine {line : Text} {property : Shorthand}
    (parsed : parse? line = some property) : isConvertible property.expand.fieldLine = false := by
  obtain ⟨-, typeName, name, -⟩ := parse?_pieces parsed
  have fieldName : ' ' ∉ property.expand.fieldName :=
    Naming.notMem_lowerFirst Naming.isForeign_space name
  let declared :=
    "private ".toList ++ property.typeName ++ ' ' :: property.expand.fieldName ++ [' ']
  have trimmed : trim property.expand.fieldLine =
      declared ++ '=' :: (' ' :: property.default ++ [';']) := by
    have form : property.expand.fieldLine = property.indent ++ 'p' :: ("rivate ".toList ++
        property.typeName ++ ' ' :: property.expand.fieldName ++ " = ".toList ++
          property.default) ++ [';'] := by
      simp [ExpandedProperty.fieldLine, expand]
    rw [form, trim_concat (by decide), trimStart_append (parse?_starts parsed).1,
      trimStart_cons (by decide)]
    simp [declared]
  have spaces : declared.count ' ' = 3 := by
    simp [declared, List.count_append, List.count_eq_zero_of_not_mem, typeName, fieldName]
  rw [Bool.eq_false_iff]
  intro convertible
  have enough := four_spaces_of_isConvertible convertible
  have few := count_takeWhile_le ' ' '=' declared (' ' :: property.default ++ [';'])
  rw [← trimmed] at few
  omega

theorem not_convertible_headLine {line : Text} {property : Shorthand}
    (parsed : parse? line = some property) : isConvertible property.expand.headLine = false := by
  obtain ⟨modifier, typeName, name, -⟩ := parse?_pieces parsed
  obtain ⟨blank, c, rest, starts, visible, -⟩ := parse?_starts parsed
  have publicName : ' ' ∉ property.expand.publicName :=
    Naming.notMem_upperFirst Naming.isForeign_space name
  let declared :=
    property.modifier ++ ' ' :: property.typeName ++ ' ' :: property.expand.publicName
  have within : trim property.expand.headLine <+: declared := by
    have form : property.expand.headLine = property.indent ++ c :: (rest ++
        ' ' :: property.typeName ++ ' ' :: property.expand.publicName) := by
      simp [ExpandedProperty.headLine, expand, starts]
    rw [form, trim_append_cons blank visible]
    simpa [declared, starts] using trimEnd_isPrefix _
  have spaces : declared.count ' ' = 2 := by
    simp [declared, List.count_append, List.count_eq_zero_of_not_mem, modifier, typeName,
      publicName]
  rw [Bool.eq_false_iff]
  intro convertible
  have enough := four_spaces_of_isConvertible convertible
  have few := ((List.takeWhile_prefix (· ≠ '=')).trans within).sublist.count_le ' '
  omega

theorem not_convertible_of_mem_lines {line : Text} {property : Shorthand}
    (parsed : parse? line = some property) {layout : PropertyLayout} {added : Text}
    (member : added ∈ property.expand.lines layout) : isConvertible added = false := by
  rcases ExpandedProperty.cases_of_mem_lines member with rfl | rfl | opened | closed
  · exact not_convertible_fieldLine parsed
  · exact not_convertible_headLine parsed
  · exact not_convertible_of_last (by decide) (by decide) opened
  · exact not_convertible_of_last (by decide) (by decide) closed

theorem not_marked_of_mem_lines {line : Text} {property : Shorthand}
    (parsed : parse? line = some property) {layout : PropertyLayout} {added : Text}
    (member : added ∈ property.expand.lines layout) (markers : List Text) :
    ¬ Annotation.Marked markers added := by
  rcases ExpandedProperty.cases_of_mem_lines member with rfl | rfl | opened | closed
  · exact Annotation.not_marked_of_last (by decide) (by decide)
  · -- The public name may be empty, so the space before it has to be seen too.
    obtain ⟨-, -, -, name⟩ := parse?_pieces parsed
    have publicName : ']' ∉ property.expand.publicName :=
      Naming.notMem_upperFirst Naming.isForeign_bracket name
    have ending : ']' ∉ ' ' :: property.expand.publicName := by simpa using publicName
    exact Annotation.not_marked_of_suffix (List.suffix_append _ _) ending List.mem_cons_self
      (by decide)
  · exact Annotation.not_marked_of_suffix opened (by decide) List.mem_cons_self (by decide)
  · exact Annotation.not_marked_of_suffix closed (by decide) List.mem_cons_self (by decide)

theorem rewritten_of_not_convertible {line : Text} (other : isConvertible line = false)
    (layout : PropertyLayout) : rewritten layout line = line := by
  simp [rewritten, other]

theorem expandLines_eq_self (layout : PropertyLayout) {text : Text}
    (other : ∀ line ∈ splitOn '\n' text, isConvertible line = false) :
    expandLines layout (SourceLine.split text) = ⟨text, 0⟩ := by
  have same : (splitOn '\n' text).map (rewritten layout) = splitOn '\n' text :=
    (List.map_congr_left fun line member =>
      rewritten_of_not_convertible (other line member) layout).trans (List.map_id _)
  have none : (splitOn '\n' text).countP isConvertible = 0 :=
    List.countP_eq_zero.mpr fun line member => by simp [other line member]
  rw [expandLines_split, same, none, joinWith_splitOn]

theorem not_convertible_of_mem_rewritten {layout : PropertyLayout} {line inner : Text}
    (single : '\n' ∉ line) (member : inner ∈ splitOn '\n' (rewritten layout line)) :
    isConvertible inner = false := by
  rcases cases_of_mem_rewritten single member with ⟨rfl, other⟩ | ⟨property, parsed, added⟩
  · exact other
  · exact not_convertible_of_mem_lines parsed added

theorem not_marked_of_mem_rewritten {markers : List Text} {layout : PropertyLayout}
    {line inner : Text} (single : '\n' ∉ line) (unmarked : ¬ Annotation.Marked markers line)
    (member : inner ∈ splitOn '\n' (rewritten layout line)) : ¬ Annotation.Marked markers inner := by
  rcases cases_of_mem_rewritten single member with ⟨rfl, -⟩ | ⟨property, parsed, added⟩
  · exact unmarked
  · exact not_marked_of_mem_lines parsed added markers

theorem not_marked_of_mem_dropLast_rewritten {layout : PropertyLayout} {line inner : Text}
    (single : '\n' ∉ line) (member : inner ∈ (splitOn '\n' (rewritten layout line)).dropLast)
    (markers : List Text) : ¬ Annotation.Marked markers inner := by
  rw [splitOn_rewritten single] at member
  cases parsed : parse? line with
  | none => simp [parsed] at member
  | some property =>
    rw [parsed] at member
    exact not_marked_of_mem_lines parsed (List.dropLast_subset _ member) markers

end Shorthand

end SchemaClasses
