import SchemaClasses.Proofs.Naming
import SchemaClasses.Proofs.Source.ShorthandForm
import SchemaClasses.Proofs.Text.Pieces

set_option autoImplicit false

namespace SchemaClasses

namespace Shorthand

open Text

theorem isTypePart_of_isLetter {c : Char} (letter : isLetter c = true) : isTypePart c = true := by
  simp [isTypePart, letter]

theorem exists_parts_of_hasForm {line : Text} (form : hasForm line = true) :
    ∃ front accessors tail : Text, line = front ++ accessors ++ tail ∧
      (∀ c ∈ front, isTypePart c = true ∨ isBlank c = true) ∧
      accessors.map foldCase = " \x7b get; set; \x7d".toList ∧ defaultTail tail = true := by
  obtain ⟨parts, rfl, valid⟩ := hasForm_iff.mp form
  refine ⟨parts.modifier ++ (parts.typeGap ++ (parts.typeName ++ (parts.nameGap ++ parts.name))),
    parts.accessors, parts.tail, by simp [Parts.text], fun c member => ?_, valid.accessors, valid.tail⟩
  simp only [List.mem_append] at member
  rcases member with letter | blank | part | blank | part
  · exact .inl (isTypePart_of_isLetter (valid.modifier.2 c letter))
  · exact .inr (valid.typeGap.2 c blank)
  · exact .inl (valid.typeName.2 c part)
  · exact .inr (valid.nameGap.2 c blank)
  · exact .inl (valid.name.2 c part)

theorem count_space_of_accessors {accessors : Text}
    (folded : accessors.map foldCase = " \x7b get; set; \x7d".toList) :
    accessors.count ' ' = 4 := by
  rw [← count_map_foldCase (by decide), folded]
  decide

theorem equals_mem_of_defaultTail {tail : Text} (valid : defaultTail tail = true) : '=' ∈ tail := by
  unfold defaultTail at valid
  split at valid
  · rename_i rest _ start
    exact (trimStart_suffix tail).subset (start ▸ List.mem_cons_self)
  · contradiction

-- The accessors hold four single spaces, so there are at least three pieces.
theorem parse?_isSome (line : Text) : (parse? line).isSome = isConvertible line := by
  by_cases convertible : isConvertible line = true
  · obtain ⟨front, accessors, tail, parts, -, folded, valid⟩ := exists_parts_of_hasForm convertible
    have pieces : 5 ≤ (splitOn ' ' (trim line)).length := by
      have spaces := count_space_of_accessors folded
      rw [length_splitOn, parts, List.count_append, List.count_append]
      omega
    have value := splitOnce?_isSome
      (parts ▸ List.mem_append_right (front ++ accessors) (equals_mem_of_defaultTail valid))
    match cut : splitOn ' ' (trim line), split : splitOnce? '=' (trim line) with
    | modifier :: typeName :: name :: others, some (before, after) =>
      simp [parse?, convertible, cut, split]
    | [], _ | [_], _ | [_, _], _ => simp [cut] at pieces
    | _ :: _ :: _ :: _, none => simp [split] at value
  · simp [parse?, convertible]

theorem exists_pieces {line : Text} {property : Shorthand} (parsed : parse? line = some property) :
    ∃ others, splitOn ' ' (trim line) =
      property.modifier :: property.typeName :: property.name :: others := by
  unfold parse? at parsed
  split at parsed
  · split at parsed <;> cases parsed
    exact ⟨_, ‹_›⟩
  · cases parsed

end Shorthand

def ExpandedProperty.parts (property : ExpandedProperty) : List Text :=
  [property.indent, property.modifier, property.typeName, property.publicName,
    property.fieldName, property.default]

def ExpandedProperty.SingleLine (property : ExpandedProperty) : Prop :=
  ∀ part ∈ [property.indent, property.modifier, property.typeName, property.publicName,
      property.fieldName, property.default], '\n' ∉ part

namespace ExpandedProperty

theorem notMem_lines {c : Char} (ending : c = '\n' ∨ c = '\r') {property : ExpandedProperty}
    (absent : ∀ part ∈ property.parts, c ∉ part) (layout : PropertyLayout) :
    ∀ line ∈ property.lines layout, c ∉ line := by
  simp only [parts, List.forall_mem_cons, List.not_mem_nil, false_implies, implies_true,
    and_true] at absent
  obtain ⟨indent, modifier, typeName, publicName, fieldName, default⟩ := absent
  have getter : c ∉ property.getter := by
    unfold getter
    rcases ending with rfl | rfl <;> simp [fieldName]
  have setter : c ∉ property.setter := by
    unfold setter
    rcases ending with rfl | rfl <;> simp [fieldName]
  rcases ending with rfl | rfl <;> cases layout <;>
    simp [lines, fieldLine, headLine, getter, setter, indent, modifier, typeName, publicName,
      fieldName, default]

theorem splitOn_render {property : ExpandedProperty} (single : property.SingleLine)
    (layout : PropertyLayout) :
    Text.splitOn '\n' (property.render layout) = property.lines layout :=
  Text.splitOn_joinWith (by cases layout <;> simp [lines]) (notMem_lines (.inl rfl) single layout)

end ExpandedProperty

namespace Shorthand

open Text

def parts (property : Shorthand) : List Text :=
  [property.modifier, property.typeName, property.name, property.default, property.indent]

def SingleLine (property : Shorthand) : Prop :=
  ∀ part ∈ [property.modifier, property.typeName, property.name, property.default, property.indent],
    '\n' ∉ part

theorem notMem_parts_of_parse? {c : Char} (noTab : c ≠ '\t') {line : Text} {property : Shorthand}
    (absent : c ∉ line) (parsed : parse? line = some property) :
    ∀ part ∈ property.parts, c ∉ part := by
  have kept {d : Char} (inside : d ∈ trim line) : d ∈ line := (trim_isInfix line).subset inside
  unfold parse? at parsed
  split at parsed
  · split at parsed
    · rename_i modifier typeName name others _ value pieces cut
      obtain rfl := Option.some.inj parsed
      have piece {part : Text} (member : part ∈ modifier :: typeName :: name :: others) :
          c ∉ part := fun inside => absent (kept (mem_of_mem_splitOn (pieces ▸ member) inside))
      have behind : c ∉ value := fun inside => absent (kept (by
        rw [(splitOnce?_eq_some_iff.mp cut).2]
        exact List.mem_append_right _ (List.mem_cons_of_mem _ inside)))
      intro part member
      simp only [parts, List.mem_cons, List.not_mem_nil, or_false] at member
      rcases member with rfl | rfl | rfl | rfl | rfl
      · exact piece (by simp)
      · exact piece (by simp)
      · exact piece (by simp)
      · intro inside
        have inner := (dropEndWhile_isPrefix (· == ';') _).subset ((trim_isInfix _).subset inside)
        exact behind ((List.dropWhile_suffix _).subset inner)
      · intro inside
        rcases mem_of_mem_replaceFrom inside with tab | blank
        · exact noTab (List.mem_singleton.mp tab)
        · exact absent ((trimEnd_isPrefix line).subset ((indentOf_isPrefix _).subset blank))
    · contradiction
  · contradiction

theorem notMem_parts_expand {c : Char} (foreign : Naming.isForeign c = true) {property : Shorthand}
    (absent : ∀ part ∈ property.parts, c ∉ part) : ∀ part ∈ property.expand.parts, c ∉ part := by
  intro part member
  simp only [expand, ExpandedProperty.parts, List.mem_cons, List.not_mem_nil, or_false] at member
  rcases member with rfl | rfl | rfl | rfl | rfl | rfl
  · exact absent property.indent (by simp [parts])
  · exact absent property.modifier (by simp [parts])
  · exact absent property.typeName (by simp [parts])
  · exact Naming.notMem_upperFirst foreign (absent property.name (by simp [parts]))
  · exact Naming.notMem_lowerFirst foreign (absent property.name (by simp [parts]))
  · exact absent property.default (by simp [parts])

theorem parse?_singleLine {line : Text} {property : Shorthand} (single : '\n' ∉ line)
    (parsed : parse? line = some property) : property.SingleLine :=
  notMem_parts_of_parse? (by decide) single parsed

theorem expand_singleLine {property : Shorthand} (single : property.SingleLine) :
    property.expand.SingleLine :=
  notMem_parts_expand Naming.isForeign_newline single

theorem exists_letter_of_hasForm {line : Text} (form : hasForm line = true) :
    ∃ c rest, line = c :: rest ∧ isLetter c = true := by
  cases line with
  | nil => contradiction
  | cons c rest =>
    refine ⟨c, rest, rfl, ?_⟩
    cases letter : isLetter c with
    | true => rfl
    | false => simp [hasForm, afterPart?, takeRun?, letter] at form

theorem exists_cons_of_splitOn {sep c : Char} (other : c ≠ sep) {rest first : Text}
    {pieces : List Text} (cut : splitOn sep (c :: rest) = first :: pieces) :
    ∃ behind, first = c :: behind := by
  rw [splitOn_cons, if_neg other] at cut
  cases inner : splitOn sep rest with
  | nil => exact absurd inner (splitOn_ne_nil sep rest)
  | cons piece others =>
    rw [inner, consFirst] at cut
    exact ⟨piece, (List.cons.inj cut).1.symm⟩

theorem parse?_starts {line : Text} {property : Shorthand} (parsed : parse? line = some property) :
    (∀ c ∈ property.indent, isBlank c = true) ∧
      ∃ c rest, property.modifier = c :: rest ∧ isBlank c = false ∧ c ≠ '[' := by
  unfold parse? at parsed
  split at parsed
  · rename_i convertible
    split at parsed
    · rename_i modifier typeName name others _ value pieces cut
      obtain rfl := Option.some.inj parsed
      constructor
      · intro c member
        rcases mem_of_mem_replaceFrom member with tab | blank
        · rw [List.mem_singleton.mp tab]
          rfl
        · exact isBlank_of_mem_indentOf blank
      · obtain ⟨c, rest, starts, letter⟩ := exists_letter_of_hasForm convertible
        have visible := visible_of_trim_eq_cons starts
        have noSpace : c ≠ ' ' := by
          rintro rfl
          contradiction
        have noBracket : c ≠ '[' := by
          rintro rfl
          contradiction
        rw [starts] at pieces
        obtain ⟨behind, same⟩ := exists_cons_of_splitOn noSpace pieces
        exact ⟨c, behind, same, visible, noBracket⟩
    · contradiction
  · contradiction

theorem head?_ne_of_mem_lines {line : Text} {property : Shorthand}
    (parsed : parse? line = some property) {layout : PropertyLayout} {added : Text}
    (member : added ∈ property.expand.lines layout) : (trimStart added).head? ≠ some '[' := by
  obtain ⟨blank, c, rest, modifier, visible, noBracket⟩ := parse?_starts parsed
  have starts {blanks : Text} (indented : ∀ d ∈ blanks, isBlank d = true) {d : Char}
      (seen : isBlank d = false) (other : d ≠ '[') (s : Text) :
      (trimStart (blanks ++ d :: s)).head? ≠ some '[' := by
    rw [trimStart_append indented, trimStart_cons seen]
    simpa using other
  have head (s : Text) : (trimStart (property.expand.headLine ++ s)).head? ≠ some '[' := by
    have form : property.expand.headLine ++ s = property.indent ++ c :: (rest ++
        ' ' :: property.typeName ++ ' ' :: Naming.upperFirst property.name ++ s) := by
      simp [ExpandedProperty.headLine, expand, modifier]
    exact form ▸ starts blank visible noBracket _
  have field : (trimStart property.expand.fieldLine).head? ≠ some '[' := by
    have form : property.expand.fieldLine = property.indent ++ 'p' :: ("rivate ".toList ++
        property.typeName ++ ' ' :: Naming.lowerFirst property.name ++ " = ".toList ++
          property.default ++ [';']) := by
      simp [ExpandedProperty.fieldLine, expand]
    exact form ▸ starts blank (by decide) (by decide) _
  have tabbed : ∀ d ∈ property.indent ++ ['\t'], isBlank d = true :=
    List.forall_mem_append.mpr ⟨blank, List.forall_mem_singleton.mpr rfl⟩
  have accessor {d : Char} (seen : isBlank d = false) (other : d ≠ '[') (s : Text) :
      (trimStart (property.indent ++ '\t' :: d :: s)).head? ≠ some '[' := by
    rw [← List.singleton_append, ← List.append_assoc]
    exact starts tabbed seen other s
  -- Each line is an indent and then a letter or a brace that the expansion writes itself.
  cases layout with
  | inline =>
    simp only [ExpandedProperty.lines, List.mem_cons, List.not_mem_nil, or_false] at member
    rcases member with rfl | rfl
    · exact field
    · rw [List.append_assoc, List.append_assoc, List.append_assoc]
      exact head _
  | block =>
    simp only [ExpandedProperty.lines, List.mem_cons, List.not_mem_nil, or_false] at member
    rcases member with rfl | rfl | rfl | rfl | rfl | rfl
    · exact field
    · exact List.append_nil property.expand.headLine ▸ head []
    · exact starts blank (by decide) (by decide) []
    · exact accessor (d := 'g') (by decide) (by decide) _
    · exact accessor (d := 's') (by decide) (by decide) _
    · exact starts blank (by decide) (by decide) []

theorem expandLine?_isSome (layout : PropertyLayout) (line : Text) :
    (expandLine? layout line).isSome = isConvertible line := by
  rw [expandLine?, Option.isSome_map, parse?_isSome]

def rewritten (layout : PropertyLayout) (line : Text) : Text :=
  if form : isConvertible line = true then
    (expandLine? layout line).get ((expandLine?_isSome layout line).trans form)
  else line

theorem rewritten_eq_getD (layout : PropertyLayout) (line : Text) :
    rewritten layout line = (expandLine? layout line).getD line := by
  unfold rewritten
  split
  · exact (Option.get_eq_getD ..)
  · rename_i other
    have absent : expandLine? layout line = none := by
      rw [← Option.not_isSome_iff_eq_none, expandLine?_isSome]
      exact other
    rw [absent, Option.getD_none]

theorem expandLines_eq (layout : PropertyLayout) (lines : List SourceLine) :
    expandLines layout lines =
      ⟨Text.joinWith '\n' ((lines.map SourceLine.text).map (rewritten layout)),
        (lines.map SourceLine.text).countP isConvertible⟩ := by
  simp only [expandLines, SourceLine.join, List.map_map, Function.comp_def, rewritten_eq_getD,
    expandLine?_isSome, List.countP_map]

theorem expandLines_split (layout : PropertyLayout) (text : Text) :
    expandLines layout (SourceLine.split text) =
      ⟨joinWith '\n' ((splitOn '\n' text).map (rewritten layout)),
        (splitOn '\n' text).countP isConvertible⟩ := by
  rw [expandLines_eq, SourceLine.split, SourceLine.map_text_numbered]

end Shorthand

def PropertyLayout.addedLines : PropertyLayout → Nat
  | inline => 1
  | block => 5

namespace Shorthand

open Text

theorem splitOn_rewritten {layout : PropertyLayout} {line : Text} (single : '\n' ∉ line) :
    splitOn '\n' (rewritten layout line) =
      match parse? line with
      | some property => property.expand.lines layout
      | none => [line] := by
  rw [rewritten_eq_getD, expandLine?]
  cases parsed : parse? line with
  | none => exact splitOn_of_notMem single
  | some property =>
    exact ExpandedProperty.splitOn_render (expand_singleLine (parse?_singleLine single parsed)) layout

theorem cases_of_mem_rewritten {layout : PropertyLayout} {line inner : Text} (single : '\n' ∉ line)
    (member : inner ∈ splitOn '\n' (rewritten layout line)) :
    (inner = line ∧ isConvertible line = false) ∨
      ∃ property, parse? line = some property ∧ inner ∈ property.expand.lines layout := by
  rw [splitOn_rewritten single] at member
  cases parsed : parse? line with
  | none =>
    rw [parsed] at member
    refine .inl ⟨List.mem_singleton.mp member, ?_⟩
    rw [← parse?_isSome, parsed]
    rfl
  | some property =>
    rw [parsed] at member
    exact .inr ⟨property, rfl, member⟩

theorem length_splitOn_rewritten (layout : PropertyLayout) {line : Text} (single : '\n' ∉ line) :
    (splitOn '\n' (rewritten layout line)).length =
      1 + if isConvertible line then layout.addedLines else 0 := by
  rw [splitOn_rewritten single, ← parse?_isSome]
  cases parse? line with
  | none => rfl
  | some property => cases layout <;> rfl

theorem splitOn_joinWith_rewritten (layout : PropertyLayout) {lines : List Text}
    (nonempty : lines ≠ []) : splitOn '\n' (joinWith '\n' (lines.map (rewritten layout))) =
      lines.flatMap fun line => splitOn '\n' (rewritten layout line) := by
  rw [splitOn_joinWith_flatMap '\n' (by simpa using nonempty), List.flatMap_map]

theorem length_splitOn_expanded (layout : PropertyLayout) {lines : List Text} (nonempty : lines ≠ [])
    (single : ∀ line ∈ lines, '\n' ∉ line) :
    (splitOn '\n' (joinWith '\n' (lines.map (rewritten layout)))).length =
      lines.length + layout.addedLines * lines.countP isConvertible := by
  rw [splitOn_joinWith_rewritten layout nonempty]
  clear nonempty
  induction lines with
  | nil => rfl
  | cons line rest ih =>
    have later := ih fun other member => single other (List.mem_cons_of_mem _ member)
    have first := length_splitOn_rewritten layout (single line List.mem_cons_self)
    rw [List.flatMap_cons, List.length_append, later, first, List.countP_cons, List.length_cons]
    split <;> simp [Nat.mul_add] <;> omega

end Shorthand

end SchemaClasses
