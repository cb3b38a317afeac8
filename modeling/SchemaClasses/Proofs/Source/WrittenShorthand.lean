import SchemaClasses.Proofs.Source.Expansion

set_option autoImplicit false

namespace SchemaClasses

namespace Text

/-- Blanks and semicolons around the text can be told from the text itself. -/
structure Framed (s : Text) : Prop where
  first : ∃ c, s.head? = some c ∧ isBlank c = false
  last : ∃ c, s.getLast? = some c ∧ isBlank c = false ∧ c ≠ ';'

end Text

namespace Shorthand

open Text

theorem trim_value {s : Text} (framed : Framed s) :
    trim (trimSemicolons (' ' :: s ++ [';'])) = s := by
  obtain ⟨first, starts, visible⟩ := framed.first
  obtain ⟨last, ends, solid, other⟩ := framed.last
  have cut : trimSemicolons (' ' :: s ++ [';']) = ' ' :: s := by
    obtain ⟨before, rfl⟩ := List.getLast?_eq_some_iff.mp ends
    simp [trimSemicolons, dropEndWhile, other]
  rw [cut, ← List.singleton_append]
  refine trim_append run_space.2 (fun c here => ?_) fun c here => ?_
  · rw [starts] at here
    exact Option.some.inj here ▸ visible
  · rw [ends] at here
    exact Option.some.inj here ▸ solid

def written (modifier typeName name value : Text) : Text :=
  modifier ++ ' ' :: (typeName ++ ' ' :: (name ++
    (" \x7b get; set; \x7d".toList ++ ' ' :: '=' :: (' ' :: value ++ [';']))))

section Written

variable {modifier typeName name value : Text} (modified : Run isLetter modifier)
  (typed : Run isTypePart typeName) (named : Run isTypePart name)

include modified in
theorem exists_written_cons (typeName name value : Text) :
    ∃ c rest, written modifier typeName name value = c :: rest ∧ isBlank c = false := by
  obtain ⟨c, letters, rfl⟩ := List.exists_cons_of_ne_nil modified.1
  exact ⟨c, _, rfl, visible_of_isLetter (modified.2 c List.mem_cons_self)⟩

include modified in
theorem trim_written {indent trailing : Text} (blank : ∀ c ∈ indent, isBlank c = true)
    (ended : ∀ c ∈ trailing, isBlank c = true) :
    trim (indent ++ written modifier typeName name value ++ trailing) =
      written modifier typeName name value := by
  obtain ⟨first, rest, starts, visible⟩ := exists_written_cons modified typeName name value
  rw [trim_append_blanks ended]
  refine trim_append blank (fun c here => ?_) fun c here => ?_
  · rw [starts] at here
    exact Option.some.inj here ▸ visible
  · have last : (written modifier typeName name value).getLast? = some ';' := by
      unfold written
      simp [List.getLast?_cons]
    rw [last] at here
    exact Option.some.inj here ▸ (by decide)

include modified typed named

theorem hasForm_written (single : '\n' ∉ value) :
    hasForm (written modifier typeName name value) = true := by
  have accessors : " \x7b get; set; \x7d".toList.map foldCase = " \x7b get; set; \x7d".toList := by
    decide
  have tail : defaultTail (' ' :: '=' :: (' ' :: value ++ [';'])) = true :=
    defaultTail_equals List.getLast?_concat (by simp [single])
  exact hasForm_iff.mpr
    ⟨⟨modifier, [' '], typeName, [' '], name, " \x7b get; set; \x7d".toList, _⟩, rfl,
      modified, run_space, typed, run_space, named, accessors, tail⟩

theorem isConvertible_written {indent trailing : Text} (blank : ∀ c ∈ indent, isBlank c = true)
    (ended : ∀ c ∈ trailing, isBlank c = true) (single : '\n' ∉ value) :
    isConvertible (indent ++ written modifier typeName name value ++ trailing) = true := by
  rw [isConvertible, trim_written modified blank ended]
  exact hasForm_written modified typed named single

theorem parse?_written {indent trailing : Text} (blank : ∀ c ∈ indent, isBlank c = true)
    (ended : ∀ c ∈ trailing, isBlank c = true) (framed : Framed value) (single : '\n' ∉ value) :
    parse? (indent ++ written modifier typeName name value ++ trailing) =
      some ⟨modifier, typeName, name, value, replaceAll "    ".toList ['\t'] indent⟩ := by
  have visible : (∀ c ∈ typeName, isBlank c = false) ∧ ∀ c ∈ name, isBlank c = false :=
    ⟨fun c member => visible_of_isTypePart (typed.2 c member),
      fun c member => visible_of_isTypePart (named.2 c member)⟩
  have whole : trim (indent ++ written modifier typeName name value ++ trailing) =
      written modifier typeName name value := trim_written modified blank ended
  have convertible := isConvertible_written modified typed named blank ended single
  have pieces : splitOn ' ' (written modifier typeName name value) =
      modifier :: typeName :: name :: splitOn ' ' ("\x7b get; set; \x7d".toList ++
        ' ' :: '=' :: (' ' :: value ++ [';'])) := by
    rw [written, splitOn_word fun c member => visible_of_isLetter (modified.2 c member),
      splitOn_word visible.1]
    exact congrArg _ (congrArg _ (splitOn_word visible.2 _))
  -- No sign in front of the value is an equals sign but the one that stands there.
  have cut : splitOnce? '=' (written modifier typeName name value) =
      some (modifier ++ ' ' :: (typeName ++ ' ' :: (name ++ " \x7b get; set; \x7d ".toList)),
        ' ' :: value ++ [';']) := by
    have before : '=' ∉ modifier ++ ' ' :: (typeName ++ ' ' :: (name ++
        " \x7b get; set; \x7d ".toList)) := by
      have apart : '=' ∉ modifier ∧ '=' ∉ typeName ∧ '=' ∉ name :=
        ⟨fun member => absurd (modified.2 _ member) (by decide),
          fun member => absurd (typed.2 _ member) (by decide),
          fun member => absurd (named.2 _ member) (by decide)⟩
      simp [apart]
    rw [← splitOnce?_append before]
    simp [written]
  have indented : indentOf (trimEnd (indent ++ written modifier typeName name value ++ trailing)) =
      indent := by
    obtain ⟨c, rest, starts, first⟩ := exists_written_cons modified typeName name value
    rw [starts, List.append_assoc, List.cons_append]
    exact indentOf_trimEnd blank first _
  simp only [parse?, if_pos convertible, whole, pieces, cut, indented, trim_value framed]

end Written

end Shorthand

end SchemaClasses
