import SchemaClasses.Proofs.Source.ShorthandTokens

set_option autoImplicit false

namespace SchemaClasses

open Text

/-- Modifier, type and name stand one space apart, and the name is an identifier. -/
structure SpacedOnce (line modifier type name : Text) : Prop where
  words : ∃ rest, trim line = modifier ++ ' ' :: (type ++ ' ' :: (name ++ ' ' :: rest))
  modifier : ∀ c ∈ modifier, isBlank c = false
  typed : type ≠ [] ∧ ∀ c ∈ type, isBlank c = false
  identifier : ∃ c letters, name = c :: letters ∧ isWordStart c = true ∧
    ∀ d ∈ letters, isWordPart d = true

namespace SpacedOnce

variable {line modifier type name : Text}

theorem visible_name (spaced : SpacedOnce line modifier type name) :
    ∀ c ∈ name, isWordPart c = true := by
  obtain ⟨c, letters, rfl, start, parts⟩ := spaced.identifier
  exact List.forall_mem_cons.mpr ⟨by simp [isWordPart, start], parts⟩

end SpacedOnce

namespace Naming

set_option maxRecDepth 4000 in
theorem upperFirst_eq_self_iff {c : Char} (start : isWordStart c = true) (rest : Text) :
    upperFirst (c :: rest) = c :: rest ↔ c.isLower = false ∧ c ≠ '\u017f' := by
  have kind : c.toNat < 128 ∨ c = '\u017f' ∨ c = '\u212a' := by
    simp only [isWordStart, Bool.or_eq_true, beq_iff_eq] at start
    rcases start with letter | rfl
    · exact ascii_of_isLetter letter
    · decide
  rw [upperFirst, ← List.singleton_append, List.append_left_inj]
  rcases kind with ascii | rfl | rfl
  · rw [toUpper_apply ascii, List.singleton_inj]
    exact forall_ascii (P := fun c => c.toUpper = c ↔ c.isLower = false ∧ c ≠ '\u017f') (by decide)
      ascii
  · decide +kernel
  · decide +kernel

end Naming

theorem ExpandedProperty.exists_lines (property : ExpandedProperty) (layout : PropertyLayout) :
    ∃ ending others, property.lines layout =
        property.fieldLine :: (property.headLine ++ ending) :: others ∧
      (ending = [] ∨ ∃ accessors, ending = " \x7b ".toList ++ accessors) := by
  cases layout with
  | inline =>
    refine ⟨" \x7b ".toList ++ (property.getter ++ ' ' :: property.setter ++ " \x7d".toList), [], ?_,
      .inr ⟨_, rfl⟩⟩
    simp [lines]
  | block =>
    refine ⟨[], [property.indent ++ ['\x7b'], property.indent ++ '\t' :: property.getter,
      property.indent ++ '\t' :: property.setter, property.indent ++ ['\x7d']], ?_, .inl rfl⟩
    rw [List.append_nil]
    rfl

namespace SpacedOnce

variable {line modifier type name : Text}

theorem exists_parts (spaced : SpacedOnce line modifier type name)
    (convertible : Shorthand.isConvertible line = true) : ∃ parts : Shorthand.Parts,
      trim line = parts.text ∧ parts.Valid ∧ parts.name = name := by
  obtain ⟨parts, whole, valid⟩ := Shorthand.hasForm_iff.mp convertible
  refine ⟨parts, whole, valid, ?_⟩
  obtain ⟨rest, cut⟩ := spaced.words
  have modified : modifier ≠ [] := by
    rintro rfl
    obtain ⟨c, letters, starts⟩ := List.exists_cons_of_ne_nil valid.modifier.1
    have letter := valid.modifier.2 c (starts ▸ List.mem_cons_self)
    rw [cut, Shorthand.Parts.text, starts] at whole
    rw [← (List.cons.inj whole).1] at letter
    exact absurd letter (by decide)
  have named : name ≠ [] := by
    obtain ⟨c, letters, rfl, -⟩ := spaced.identifier
    exact List.cons_ne_nil c letters
  have tokens := valid.words_text
  rw [← whole, cut, words_append rfl, words_append rfl, words_append rfl,
    words_word modified spaced.modifier, words_word spaced.typed.1 spaced.typed.2,
    words_word named fun c member => visible_of_isWordPart (spaced.visible_name c member)] at tokens
  exact (List.cons.inj (List.cons.inj (List.cons.inj tokens).2).2).1.symm

theorem member_eq (spaced : SpacedOnce line modifier type name) (single : '\n' ∉ line)
    (convertible : Shorthand.isConvertible line = true) {found : Text} {shape : MemberShape}
    (kind : LineKind.ofLine line = .member found shape) : found = name ∧ shape = .property := by
  obtain ⟨parts, whole, valid, rfl⟩ := spaced.exists_parts convertible
  rw [LineKind.ofLine, whole] at kind
  obtain ⟨agrees, shaped⟩ := valid.member_iff
    (fun member => single ((trim_isInfix line).subset (whole ▸ member))) kind
  exact ⟨agrees.mpr spaced.identifier, shaped spaced.identifier⟩

theorem parse?_eq (spaced : SpacedOnce line modifier type name)
    (convertible : Shorthand.isConvertible line = true) : ∃ property,
      Shorthand.parse? line = some property ∧ property.modifier = modifier ∧
      property.typeName = type ∧ property.name = name := by
  have found := Shorthand.parse?_isSome line
  rw [convertible, Option.isSome_iff_exists] at found
  obtain ⟨property, parsed⟩ := found
  refine ⟨property, parsed, ?_⟩
  obtain ⟨rest, whole⟩ := spaced.words
  have named : ∀ c ∈ name, isBlank c = false := fun c member =>
    visible_of_isWordPart (spaced.visible_name c member)
  have pieces : splitOn ' ' (trim line) = modifier :: type :: name :: splitOn ' ' rest := by
    rw [whole, splitOn_word spaced.modifier, splitOn_word spaced.typed.2, splitOn_word named]
  obtain ⟨others, same⟩ := Shorthand.exists_pieces parsed
  rw [pieces] at same
  cases same
  exact ⟨rfl, rfl, rfl⟩

theorem member_of_expanded (spaced : SpacedOnce line modifier type name) (layout : PropertyLayout)
    (single : '\n' ∉ line) (convertible : Shorthand.isConvertible line = true) {found : Text}
    {shape : MemberShape} (kind : LineKind.ofLine line = .member found shape) :
    found = name ∧
      (∃ field indent ending others, splitOn '\n' (Shorthand.rewritten layout line) = field ::
          (indent ++ modifier ++ ' ' :: type ++ ' ' :: Naming.upperFirst found ++ ending) ::
            others ∧
        (ending = [] ∨ ∃ accessors, ending = " \x7b ".toList ++ accessors)) ∧
      (Naming.upperFirst found = found ↔ ∀ c ∈ found.head?, c.isLower = false ∧ c ≠ '\u017f') := by
  obtain ⟨rfl, -⟩ := spaced.member_eq single convertible kind
  refine ⟨rfl, ?_, ?_⟩
  · obtain ⟨property, parsed, rfl, rfl, rfl⟩ := spaced.parse?_eq convertible
    obtain ⟨ending, others, lines, form⟩ := property.expand.exists_lines layout
    refine ⟨property.expand.fieldLine, property.indent, ending, others, ?_, form⟩
    rw [Shorthand.splitOn_rewritten single, parsed]
    exact lines
  · obtain ⟨c, letters, rfl, start, -⟩ := spaced.identifier
    rw [Naming.upperFirst_eq_self_iff start letters]
    simp

end SpacedOnce

end SchemaClasses
