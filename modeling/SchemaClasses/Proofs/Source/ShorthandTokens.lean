import Mathlib.Data.Option.Basic
import SchemaClasses.Proofs.Source.Expansion
import SchemaClasses.Proofs.Source.HeaderNames

set_option autoImplicit false

namespace SchemaClasses

open Text

def Identifier (name : Text) : Prop :=
  ∃ c letters, name = c :: letters ∧ isWordStart c = true ∧ ∀ d ∈ letters, isWordPart d = true

namespace Text

theorem words_gap {word gap : Text} (nonempty : word ≠ []) (visible : ∀ c ∈ word, isBlank c = false)
    (between : Run isBlank gap) (s : Text) : words (word ++ (gap ++ s)) = word :: words s := by
  obtain ⟨nonblank, blank⟩ := between
  obtain ⟨b, gap, rfl⟩ := List.exists_cons_of_ne_nil nonblank
  obtain ⟨here, later⟩ := List.forall_mem_cons.mp blank
  rw [List.cons_append, words_append here, words_word nonempty visible, words_blanks_append later]
  rfl

theorem eq_space_of_gap {gap s first second : Text} (between : Run isBlank gap)
    (visible : ∀ c ∈ (s ++ first).head?, isBlank c = false)
    (same : ' ' :: (s ++ first) = gap ++ (s ++ second)) : gap = [' '] ∧ first = second := by
  obtain ⟨nonblank, blank⟩ := between
  obtain ⟨b, gap, rfl⟩ := List.exists_cons_of_ne_nil nonblank
  obtain ⟨rfl, behind⟩ := List.cons.inj same
  cases gap with
  | nil => exact ⟨rfl, List.append_cancel_left behind⟩
  | cons d gap =>
    have seen := visible d (by rw [behind]; rfl)
    rw [blank d (by simp)] at seen
    cases seen

end Text

namespace LineKind

variable {tail : Text → Bool} {line name : Text}

theorem identifier_of_nameBefore? {s : Text} (found : nameBefore? tail s = some name) :
    Identifier name := by
  cases s with
  | nil => cases found
  | cons c rest =>
    rw [nameBefore?] at found
    split at found <;> cases found
    rename_i accepted
    rw [Bool.and_eq_true] at accepted
    exact ⟨c, _, rfl, accepted.1, fun d => List.all_eq_true.mp List.all_takeWhile d⟩

theorem exists_ending_of_nameBefore? {s : Text} (found : nameBefore? tail s = some name) :
    ∃ ending, s = name ++ ending ∧ tail ending = true := by
  cases s with
  | nil => cases found
  | cons c rest =>
    rw [nameBefore?] at found
    split at found <;> cases found
    rename_i accepted
    rw [Bool.and_eq_true] at accepted
    refine ⟨rest.dropWhile isWordPart, ?_, accepted.2⟩
    rw [List.cons_append, List.takeWhile_append_dropWhile]

theorem identifier_of_nameAfterType? {s : Text} (found : nameAfterType? tail s = some name) :
    Identifier name := by
  induction s with
  | nil => cases found
  | cons c rest ih =>
    rw [nameAfterType?] at found
    split at found
    · cases found
    · split at found
      · rcases (Option.orElse_eq_some _ _ _).mp found with here | ⟨-, later⟩
        · exact identifier_of_nameBefore? here
        · exact ih later
      · exact ih found

theorem identifier_of_memberName? (found : memberName? tail line = some name) : Identifier name := by
  unfold memberName? at found
  split at found
  · cases found
  · split at found
    · cases found
    · rcases (Option.orElse_eq_some _ _ _).mp found with typed | ⟨-, blank⟩
      · exact identifier_of_nameAfterType? typed
      · split at blank
        · exact identifier_of_nameBefore? blank
        · cases blank

theorem memberName?_of_ofTrimmed {line name : Text} {shape : MemberShape}
    (kind : ofTrimmed line = .member name shape) :
    (shape = .property ∧ memberName? propertyTail line = some name) ∨
      (memberName? propertyTail line = none ∧ memberName? fieldTail line = some name) := by
  unfold ofTrimmed at kind
  split at kind
  · cases kind
  · split at kind
    · cases kind
    · split at kind
      · cases kind
      · split at kind
        · cases kind
          exact .inl ⟨rfl, ‹_›⟩
        · split at kind
          · cases kind
            exact .inr ⟨‹_›, ‹_›⟩
          · split at kind <;> cases kind

theorem exists_keyword (found : memberName? tail line = some name) : ∃ keyword b after,
    line = keyword ++ b :: after ∧ keyword.map foldCase = "public".toList ∧ isBlank b = true := by
  unfold memberName? at found
  cases dropped : dropStartFolded? "public".toList line with
  | none =>
    rw [dropped] at found
    cases found
  | some after =>
    obtain ⟨keyword, rfl, folded⟩ := dropStartFolded?_eq_some_iff.mp dropped
    rw [dropped] at found
    cases after with
    | nil => cases found
    | cons b after =>
      refine ⟨keyword, b, after, rfl, folded, ?_⟩
      by_contra visible
      simp [indentOf, visible] at found

end LineKind

namespace Shorthand

namespace Parts

variable {parts : Parts}

namespace Valid

theorem visible_modifier (valid : parts.Valid) : ∀ c ∈ parts.modifier, isBlank c = false :=
  fun c member => visible_of_isLetter (valid.modifier.2 c member)

theorem visible_typeName (valid : parts.Valid) : ∀ c ∈ parts.typeName, isBlank c = false :=
  fun c member => visible_of_isTypePart (valid.typeName.2 c member)

theorem visible_name (valid : parts.Valid) : ∀ c ∈ parts.name, isBlank c = false :=
  fun c member => visible_of_isTypePart (valid.name.2 c member)

theorem words_text (valid : parts.Valid) : words parts.text =
    parts.modifier :: parts.typeName :: parts.name :: words (parts.accessors ++ parts.tail) := by
  obtain ⟨letters, starts⟩ := valid.exists_accessors
  have last : words (parts.name ++ (parts.accessors ++ parts.tail)) =
      parts.name :: words (parts.accessors ++ parts.tail) := by
    rw [starts, List.cons_append, ← List.singleton_append,
      words_gap valid.name.1 valid.visible_name run_space, words_blanks_append run_space.2]
  rw [text, words_gap valid.modifier.1 valid.visible_modifier valid.typeGap,
    words_gap valid.typeName.1 valid.visible_typeName valid.nameGap, last]

theorem spaced_iff (valid : parts.Valid) :
    parts.modifier ++ ' ' :: (parts.typeName ++ ' ' :: parts.name) <+: parts.text ↔
      parts.typeGap = [' '] ∧ parts.nameGap = [' '] := by
  constructor
  · rintro ⟨more, whole⟩
    have behind : parts.modifier ++ (' ' :: (parts.typeName ++ (' ' :: (parts.name ++ more)))) =
        parts.modifier ++ (parts.typeGap ++ (parts.typeName ++ (parts.nameGap ++ (parts.name ++
          (parts.accessors ++ parts.tail))))) := by
      simpa [text] using whole
    obtain ⟨one, behind⟩ := eq_space_of_gap valid.typeGap (visible_head_of_run valid.typeName _)
      (List.append_cancel_left behind)
    obtain ⟨two, -⟩ := eq_space_of_gap valid.nameGap (visible_head_of_run valid.name _) behind
    exact ⟨one, two⟩
  · rintro ⟨one, two⟩
    refine ⟨parts.accessors ++ parts.tail, ?_⟩
    simp [text, one, two]

theorem exists_splitOn (valid : parts.Valid) (one : parts.typeGap = [' '])
    (two : parts.nameGap = [' ']) : ∃ others,
      splitOn ' ' parts.text = parts.modifier :: parts.typeName :: parts.name :: others := by
  obtain ⟨letters, starts⟩ := valid.exists_accessors
  have form : parts.text = parts.modifier ++ ' ' :: (parts.typeName ++ ' ' :: (parts.name ++
      ' ' :: (letters ++ parts.tail))) := by
    simp [text, one, two, starts]
  refine ⟨splitOn ' ' (letters ++ parts.tail), ?_⟩
  rw [form, splitOn_word valid.visible_modifier, splitOn_word valid.visible_typeName,
    splitOn_word valid.visible_name]

theorem member_iff (valid : parts.Valid) (single : '\n' ∉ parts.text) {found : Text}
    {shape : MemberShape} (kind : LineKind.ofTrimmed parts.text = .member found shape) :
    (found = parts.name ↔ Identifier parts.name) ∧
      (Identifier parts.name → shape = .property) := by
  have accepted : LineKind.propertyTail (parts.accessors ++ parts.tail) = true := by
    refine LineKind.propertyTail_folded valid.accessors fun member => single ?_
    simp [text, member]
  have declares {tail : Text → Bool} {other : Text}
      (read : LineKind.memberName? tail parts.text = some other) (named : Identifier parts.name) :
      LineKind.memberName? LineKind.propertyTail parts.text = some parts.name := by
    obtain ⟨keyword, b, after, split, keyed, blank⟩ := LineKind.exists_keyword read
    have publicVisible : ∀ d ∈ "public".toList, isBlank d = false := by simp [isBlank]
    have word : ∀ c ∈ keyword, isBlank c = false := by
      intro c member
      have folded : foldCase c ∈ "public".toList := keyed ▸ List.mem_map_of_mem member
      rw [← isBlank_foldCase]
      exact publicVisible _ folded
    obtain ⟨d, gap, typeGap⟩ := List.exists_cons_of_ne_nil valid.typeGap.1
    have whole : parts.text = parts.modifier ++ d :: (gap ++ (parts.typeName ++ (parts.nameGap ++
        (parts.name ++ (parts.accessors ++ parts.tail))))) := by
      rw [text, typeGap, List.cons_append]
    obtain ⟨same, -⟩ := eq_of_append_blank valid.visible_modifier word
      (valid.typeGap.2 d (typeGap ▸ List.mem_cons_self)) blank (whole.symm.trans split)
    obtain ⟨letters, starts⟩ := valid.exists_accessors
    obtain ⟨c, rest, name, start, others⟩ := named
    rw [text, name]
    exact LineKind.memberName?_property (same ▸ keyed) valid.typeGap valid.typeName.1
      valid.visible_typeName valid.nameGap start others (by rw [starts]; rfl) accepted
  rcases LineKind.memberName?_of_ofTrimmed kind with ⟨property, read⟩ | ⟨none, read⟩
  · refine ⟨⟨fun same => same ▸ LineKind.identifier_of_memberName? read, fun named => ?_⟩,
      fun _ => property⟩
    exact Option.some.inj (read.symm.trans (declares read named))
  · have other : ¬ Identifier parts.name := by
      intro named
      rw [declares read named] at none
      cases none
    exact ⟨⟨fun same => same ▸ LineKind.identifier_of_memberName? read, fun named => absurd named other⟩,
      fun named => absurd named other⟩

end Valid

end Parts

theorem parsed_tokens_iff (line : Text) (single : '\n' ∉ line)
    (convertible : isConvertible line = true) :
    ∃ modifier typeName name others property,
      words (trim line) = modifier :: typeName :: name :: others ∧
      parse? line = some property ∧
      (property.modifier = modifier ∧ property.typeName = typeName ∧ property.name = name ↔
        modifier ++ ' ' :: (typeName ++ ' ' :: name) <+: trim line) ∧
      ∀ found shape, LineKind.ofLine line = .member found shape →
        (found = name ↔ Identifier name) ∧
        (Identifier name → shape = .property ∧
          (modifier ++ ' ' :: (typeName ++ ' ' :: name) <+: trim line →
            property.expand.publicName = Naming.upperFirst found ∧
            property.expand.fieldName = Naming.lowerFirst found)) := by
  obtain ⟨parts, whole, valid⟩ := hasForm_iff.mp convertible
  obtain ⟨property, parsed⟩ := Option.isSome_iff_exists.mp ((parse?_isSome line).trans convertible)
  obtain ⟨others, pieces⟩ := exists_pieces parsed
  have tokens : property.modifier = parts.modifier ∧ property.typeName = parts.typeName ∧
      property.name = parts.name ↔
        parts.modifier ++ ' ' :: (parts.typeName ++ ' ' :: parts.name) <+: trim line := by
    constructor
    · -- The pieces joined by spaces are the line again.
      rintro ⟨modifier, typeName, name⟩
      have start := joinWith_isPrefix ' ' [property.modifier, property.typeName, property.name] others
      rw [List.cons_append, List.cons_append, List.cons_append, List.nil_append, ← pieces,
        joinWith_splitOn] at start
      rw [← modifier, ← typeName, ← name]
      exact start
    · intro start
      rw [whole] at start pieces
      obtain ⟨one, two⟩ := valid.spaced_iff.mp start
      obtain ⟨behind, same⟩ := valid.exists_splitOn one two
      obtain ⟨modifier, rest⟩ := List.cons.inj (pieces.symm.trans same)
      obtain ⟨typeName, rest⟩ := List.cons.inj rest
      exact ⟨modifier, typeName, (List.cons.inj rest).1⟩
  have oneLine : '\n' ∉ parts.text := fun member =>
    single ((trim_isInfix line).subset (whole ▸ member))
  refine ⟨parts.modifier, parts.typeName, parts.name, _, property, whole ▸ valid.words_text, parsed,
    tokens, fun found shape kind => ?_⟩
  rw [LineKind.ofLine, whole] at kind
  obtain ⟨agrees, shaped⟩ := valid.member_iff oneLine kind
  refine ⟨agrees, fun named => ⟨shaped named, fun start => ?_⟩⟩
  obtain ⟨-, -, name⟩ := tokens.mpr start
  rw [agrees.mpr named, ← name]
  exact ⟨rfl, rfl⟩

example : LineKind.ofLine "public int A.B \x7b get; set; \x7d = new Foo;".toList =
    .member "Foo".toList .field := by
  decide +kernel

def countOneSpaceApart : Text := "public int Count \x7b get; set; \x7d = 3;".toList

def countTwoSpacesApart : Text := "public  int Count \x7b get; set; \x7d = 3;".toList

theorem tokens_one_space_apart :
    '\n' ∉ countOneSpaceApart ∧ isConvertible countOneSpaceApart = true ∧
    ∃ property, parse? countOneSpaceApart = some property ∧
      property.modifier = "public".toList ∧ property.typeName = "int".toList ∧
      property.name = "Count".toList := by
  have single : '\n' ∉ countOneSpaceApart := by decide
  have convertible : isConvertible countOneSpaceApart = true := by decide +kernel
  obtain ⟨modifier, typeName, name, others, property, tokens, parsed, agree, -⟩ :=
    parsed_tokens_iff countOneSpaceApart single convertible
  have cut : words (trim countOneSpaceApart) = ["public".toList, "int".toList, "Count".toList,
      ['\x7b'], "get;".toList, "set;".toList, ['\x7d'], ['='], "3;".toList] := by decide +kernel
  rw [cut] at tokens
  cases tokens
  exact ⟨single, convertible, property, parsed, agree.mpr (by decide)⟩

theorem tokens_two_spaces_apart :
    '\n' ∉ countTwoSpacesApart ∧ isConvertible countTwoSpacesApart = true ∧
    (words (trim countTwoSpacesApart)).take 3 = ["public".toList, "int".toList, "Count".toList] ∧
    parse? countTwoSpacesApart = some ⟨"public".toList, [], "int".toList, ['3'], []⟩ ∧
    LineKind.ofLine countTwoSpacesApart = .member "Count".toList .property ∧
    (∀ property ∈ parse? countTwoSpacesApart, property.expand.publicName = "Int".toList) ∧
    Naming.upperFirst "Count".toList ≠ "Int".toList := by
  decide +kernel

end Shorthand

end SchemaClasses
