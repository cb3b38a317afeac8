import Mathlib.Data.List.Basic
import Mathlib.Data.List.TakeWhile
import SchemaClasses.Proofs.Text.Letters
import SchemaClasses.Proofs.Text.Pieces
import SchemaClasses.Proofs.Text.Plain
import SchemaClasses.Proofs.Text.Trim
import SchemaClasses.Source.LineKind

set_option autoImplicit false

namespace SchemaClasses.LineKind

open Text

theorem dropStartFolded?_of_ne {p c : Char} (other : foldCase c ≠ p) (pattern s : Text) :
    dropStartFolded? (p :: pattern) (c :: s) = none :=
  if_neg fun same => other same.symm

theorem ofLine_eq_other {blanks s : Text} {c : Char} (blank : ∀ d ∈ blanks, isBlank d = true)
    (visible : isBlank c = false) (noOpen : c ≠ '\x7b') (noClose : c ≠ '\x7d')
    (noPublic : foldCase c ≠ 'p') : ofLine (blanks ++ c :: s) = .other := by
  have header : headerName? (c :: trimEnd s) = none := by
    unfold headerName?
    rw [show "public partial class".toList = 'p' :: "ublic partial class".toList from rfl,
      dropStartFolded?_of_ne noPublic]
  have publicFree : dropStartFolded? "public".toList (c :: trimEnd s) = none :=
    dropStartFolded?_of_ne noPublic "ublic".toList _
  have member (tail : Text → Bool) : memberName? tail (c :: trimEnd s) = none := by
    unfold memberName?
    rw [publicFree]
  have notPublic : isPublic (c :: trimEnd s) = false := by
    unfold isPublic
    rw [publicFree]
  rw [ofLine, trim_append_cons blank visible]
  simp [ofTrimmed, noOpen, noClose, header, member, notPublic]

theorem ofLine_nil : ofLine [] = .other := by decide

section Declarations

variable {type name rest : Text}

theorem dropStartFolded?_append {pattern read : Text} (same : read.map foldCase = pattern)
    (rest : Text) : dropStartFolded? pattern (read ++ rest) = some rest :=
  dropStartFolded?_eq_some_iff.mpr ⟨read, rfl, same⟩

theorem indentOf_space {s : Text} (visible : ∀ c ∈ s.head?, isBlank c = false) :
    indentOf (' ' :: s) = [' '] := by
  have same := indentOf_gap run_space.2 visible
  exact same

theorem trimStart_space {s : Text} (visible : ∀ c ∈ s.head?, isBlank c = false) :
    trimStart (' ' :: s) = s := by
  have same := trimStart_gap run_space.2 visible
  exact same

theorem headerName?_header (visible : ∀ c ∈ name, isBlank c = false) :
    headerName? ("public partial class".toList ++ ' ' :: name) = some name := by
  have first : ∀ c ∈ name.head?, isBlank c = false := fun c member =>
    visible c (List.mem_of_head? member)
  have dropped : dropStartFolded? "public partial class".toList
      ("public partial class".toList ++ ' ' :: name) = some (' ' :: name) :=
    dropStartFolded?_append (by decide) _
  have single : '\n' ∉ name := newline_notMem_of_visible visible
  have word : name.takeWhile (fun c => !isBlank c) = name :=
    List.takeWhile_eq_self_iff.mpr fun c member => by simp [visible c member]
  simp only [headerName?, dropped, indentOf_space first, trimStart_space first, single, word,
    List.cons_ne_nil, or_self, if_false]

theorem ofLine_header {blanks : Text} (blank : ∀ d ∈ blanks, isBlank d = true)
    (visible : ∀ d ∈ name, isBlank d = false) (nonempty : name ≠ []) :
    ofLine (blanks ++ ("public partial class".toList ++ ' ' :: name)) = .classHeader name := by
  have trimmed : trim (blanks ++ ("public partial class".toList ++ ' ' :: name)) =
      "public partial class".toList ++ ' ' :: name := by
    refine trim_append blank (fun c first => ?_) (fun c last => ?_)
    · obtain rfl := Option.some.inj first
      decide
    · rw [List.getLast?_append_of_ne_nil _ (List.cons_ne_nil _ _),
        List.getLast?_cons_of_ne_nil nonempty] at last
      exact visible c (List.mem_of_getLast? last)
  rw [ofLine, trimmed, ofTrimmed, headerName?_header visible]
  rfl

theorem read_word {word more read after : Text} (visible : ∀ c ∈ type, isBlank c = false)
    (alone : ' ' ∉ word) (folded : read.map foldCase = word ++ ' ' :: more)
    (split : type ++ ' ' :: rest = read ++ after) :
    type.map foldCase = word ∧ ∃ later, rest = later ++ after ∧ later.map foldCase = more := by
  induction word generalizing type read with
  | nil =>
    cases read with
    | nil => contradiction
    | cons r read =>
      obtain ⟨space, others⟩ := List.cons.inj folded
      have separator : r = ' ' := (foldCase_eq_of_lt (by decide)).mp space
      cases type with
      | nil => exact ⟨rfl, read, (List.cons.inj split).2, others⟩
      | cons c type =>
        have blank : isBlank c = false := visible c List.mem_cons_self
        rw [(List.cons.inj split).1, separator] at blank
        contradiction
  | cons w word ih =>
    cases read with
    | nil => contradiction
    | cons r read =>
      obtain ⟨letter, others⟩ := List.cons.inj folded
      cases type with
      | nil =>
        rw [← (List.cons.inj split).1, show foldCase ' ' = ' ' by decide] at letter
        exact absurd (letter ▸ List.mem_cons_self) alone
      | cons c type =>
        obtain ⟨first, behind⟩ := List.cons.inj split
        obtain ⟨same, later⟩ := ih (fun d member => visible d (List.mem_cons_of_mem _ member))
          (fun member => alone (List.mem_cons_of_mem _ member)) others behind
        exact ⟨by rw [List.map_cons, first, letter, same], later⟩

theorem read_last_word {read after : Text} {b : Char} (visible : ∀ c ∈ name, isBlank c = false)
    (blank : isBlank b = true) (alone : ' ' ∉ read.map foldCase)
    (split : name ++ ' ' :: rest = read ++ b :: after) : name = read := by
  rcases List.append_eq_append_iff.mp split with ⟨middle, longer, behind⟩ | ⟨middle, longer, behind⟩
  · cases middle with
    | nil => rw [longer, List.append_nil]
    | cons c middle =>
      obtain ⟨rfl, -⟩ := List.cons.inj behind
      refine absurd ?_ alone
      rw [longer, List.map_append, List.map_cons, show foldCase ' ' = ' ' by decide]
      exact List.mem_append_right _ List.mem_cons_self
  · cases middle with
    | nil => rw [longer, List.append_nil]
    | cons c middle =>
      obtain ⟨rfl, -⟩ := List.cons.inj behind
      have member : b ∈ name := longer ▸ List.mem_append_right _ List.mem_cons_self
      rw [visible b member] at blank
      contradiction

theorem headerName?_declaration (typed : ∀ c ∈ type, isBlank c = false)
    (named : ∀ c ∈ name, isBlank c = false)
    (noHeader : ¬ (type.map foldCase = "partial".toList ∧ name.map foldCase = "class".toList)) :
    headerName? ("public".toList ++ ' ' :: (type ++ ' ' :: (name ++ ' ' :: rest))) = none := by
  unfold headerName?
  cases dropped : dropStartFolded? "public partial class".toList
      ("public".toList ++ ' ' :: (type ++ ' ' :: (name ++ ' ' :: rest))) with
  | none => rfl
  | some after =>
    obtain ⟨read, split, folded⟩ := dropStartFolded?_eq_some_iff.mp dropped
    have publicVisible : ∀ c ∈ "public".toList, isBlank c = false := by simp [isBlank]
    have words : "public partial class".toList =
      "public".toList ++ ' ' :: ("partial".toList ++ ' ' :: "class".toList) := rfl
    rw [words] at folded
    -- The pattern is read word by word, as the words of a declaration have no blanks inside.
    obtain ⟨-, second, split, folded⟩ := read_word publicVisible (by decide) folded split
    obtain ⟨typeName, third, split, folded⟩ := read_word typed (by decide) folded split
    -- With a blank behind the pattern its last word would be the whole name.
    have closed : indentOf after = [] := by
      cases after with
      | nil => rfl
      | cons b after =>
        by_cases blank : isBlank b = true
        · have same := read_last_word named blank (by rw [folded]; decide) split
          exact absurd ⟨typeName, same ▸ folded⟩ noHeader
        · simp [indentOf, blank]
    simp [closed]

theorem dropBlankThen?_folded {pattern read : Text} (nonempty : pattern ≠ [])
    (visible : ∀ c ∈ pattern, isBlank c = false) (folded : read.map foldCase = ' ' :: pattern)
    (rest : Text) : dropBlankThen? pattern (read ++ rest) = some rest := by
  rcases read with _ | ⟨space, letters⟩
  · cases folded
  · obtain ⟨blank, letter⟩ := List.cons.inj folded
    obtain rfl : space = ' ' := (foldCase_eq_of_lt (by decide)).mp blank
    have starts : ∀ c ∈ (letters ++ rest).head?, isBlank c = false := by
      intro c first
      cases letters with
      | nil => exact absurd letter.symm nonempty
      | cons d letters =>
        obtain rfl := Option.some.inj first
        rw [← isBlank_foldCase]
        exact visible _ (letter ▸ List.mem_cons_self)
    rw [dropBlankThen?, List.cons_append, trimStart_space starts]
    exact dropStartFolded?_append letter rest

theorem propertyTail_folded {read : Text} (folded : read.map foldCase = " \x7b get; set; \x7d".toList)
    (single : '\n' ∉ rest) : propertyTail (read ++ rest) = true := by
  have words : " \x7b get; set; \x7d".toList = (' ' :: ['\x7b']) ++ ((' ' :: "get;".toList) ++
    ((' ' :: "set;".toList) ++ (' ' :: ['\x7d']))) := rfl
  rw [words] at folded
  obtain ⟨opening, others, rfl, one, folded⟩ := List.map_eq_append_iff.mp folded
  obtain ⟨getter, others, rfl, two, folded⟩ := List.map_eq_append_iff.mp folded
  obtain ⟨setter, closing, rfl, three, four⟩ := List.map_eq_append_iff.mp folded
  have opened := dropBlankThen?_folded (by decide) (by simp [isBlank]) one
  have got := dropBlankThen?_folded (by decide) (by simp [isBlank]) two
  have written := dropBlankThen?_folded (by decide) (by simp [isBlank]) three
  have closed := dropBlankThen?_folded (by decide) (by simp [isBlank]) four rest
  simp only [propertyTail, List.append_assoc, opened, got, written, closed, Option.bind_some, single,
    not_false_iff, decide_true]

theorem nameBefore?_word {tail : Text → Bool} {c : Char} (start : isWordStart c = true)
    (parts : ∀ d ∈ name, isWordPart d = true) (stops : rest.head?.any isWordPart = false)
    (accepted : tail rest = true) : nameBefore? tail (c :: name ++ rest) = some (c :: name) := by
  have behind : (name ++ rest).dropWhile isWordPart = rest := by
    rw [List.dropWhile_append_of_pos parts]
    cases rest with
    | nil => rfl
    | cons d rest => exact List.dropWhile_cons_of_neg (by simpa using stops)
  have word : (name ++ rest).takeWhile isWordPart = name := by
    rw [List.takeWhile_append_of_pos parts]
    cases rest with
    | nil => simp
    | cons d rest => rw [List.takeWhile_cons_of_neg (by simpa using stops), List.append_nil]
  rw [List.cons_append, nameBefore?, behind, word, start, accepted]
  rfl

theorem nameAfterType?_type {tail : Text → Bool} {gap : Text} (nonempty : type ≠ [])
    (typed : ∀ c ∈ type, isBlank c = false) (between : Run isBlank gap)
    (visible : ∀ c ∈ rest.head?, isBlank c = false) (found : nameBefore? tail rest = some name) :
    nameAfterType? tail (type ++ (gap ++ rest)) = some name := by
  induction type with
  | nil => contradiction
  | cons d type ih =>
    have sameLine : d ≠ '\n' := by
      rintro rfl
      exact absurd (typed '\n' List.mem_cons_self) (by decide)
    rw [List.cons_append, nameAfterType?, if_neg sameLine]
    -- Only at the last character of the type does a blank follow.
    cases type with
    | nil =>
      have blank : (gap ++ rest).head?.any isBlank = true := by
        obtain ⟨b, gap, rfl⟩ := List.exists_cons_of_ne_nil between.1
        simp [between.2 b List.mem_cons_self]
      rw [List.nil_append, if_pos blank, trimStart_gap between.2 visible, found]
      rfl
    | cons e type =>
      have inner : isBlank e = false := typed e (by simp)
      have noSpace : ¬ ((e :: type ++ (gap ++ rest)).head?.any isBlank = true) := by
        simp [inner]
      rw [if_neg noSpace]
      exact ih (List.cons_ne_nil _ _) fun f member => typed f (List.mem_cons_of_mem _ member)

def declared (type name rest : Text) : Text :=
  "public".toList ++ ' ' :: (type ++ ' ' :: (name ++ (" \x7b get; set; \x7d".toList ++ rest)))

theorem declared_eq_append (type name rest : Text) : declared type name rest =
    ("public ".toList ++ type ++ ' ' :: name ++ " \x7b get; set; ".toList) ++ '\x7d' :: rest := by
  unfold declared
  simp

theorem memberName?_property {keyword typeGap nameGap accessors : Text}
    (keyed : keyword.map foldCase = "public".toList) (beforeType : Run isBlank typeGap)
    (nonempty : type ≠ []) (typed : ∀ c ∈ type, isBlank c = false) (beforeName : Run isBlank nameGap)
    {c : Char} (start : isWordStart c = true) (parts : ∀ d ∈ name, isWordPart d = true)
    (stops : accessors.head?.any isWordPart = false) (accepted : propertyTail accessors = true) :
    memberName? propertyTail
      (keyword ++ (typeGap ++ (type ++ (nameGap ++ (c :: name ++ accessors))))) = some (c :: name) := by
  have dropped := dropStartFolded?_append keyed
    (typeGap ++ (type ++ (nameGap ++ (c :: name ++ accessors))))
  have before : nameBefore? propertyTail (c :: name ++ accessors) = some (c :: name) :=
    nameBefore?_word start parts stops accepted
  have visible : ∀ d ∈ (c :: name ++ accessors).head?, isBlank d = false := fun d member =>
    Option.some.inj member ▸ visible_of_isWordPart (by simp [isWordPart, start])
  have found := nameAfterType?_type nonempty typed beforeName visible before
  have first : ∀ d ∈ (type ++ (nameGap ++ (c :: name ++ accessors))).head?, isBlank d = false := by
    cases type with
    | nil => contradiction
    | cons e type => exact fun d member => Option.some.inj member ▸ typed e List.mem_cons_self
  simp only [memberName?, dropped, indentOf_gap beforeType.2 first,
    trimStart_gap beforeType.2 first, found, beforeType.1, if_false]
  rfl

theorem memberName?_declared (nonempty : type ≠ []) (typed : ∀ c ∈ type, isBlank c = false)
    {c : Char} (start : isWordStart c = true) (plain : Plain (c :: name)) (single : '\n' ∉ rest) :
    memberName? propertyTail (declared type (c :: name) rest) = some (c :: name) :=
  memberName?_property (by decide) run_space nonempty typed run_space start
    (fun d member => isWordPart_of_isPlain (plain d (List.mem_cons_of_mem _ member))) rfl
    (propertyTail_folded (by decide) single)

theorem trim_declared {blanks : Text} (blank : ∀ c ∈ blanks, isBlank c = true)
    (last : ∀ c ∈ rest.getLast?, isBlank c = false) :
    trim (blanks ++ declared type name rest) = declared type name rest := by
  refine trim_append blank (fun c first => ?_) (fun c final => ?_)
  · obtain rfl := Option.some.inj first
    decide
  · rw [declared_eq_append, List.getLast?_append_of_ne_nil _ (List.cons_ne_nil _ _),
      List.getLast?_cons] at final
    obtain rfl := Option.some.inj final
    cases ending : rest.getLast? with
    | none => decide
    | some d => exact last d ending

theorem splitOn_declared (typed : ∀ c ∈ type, isBlank c = false)
    (named : ∀ c ∈ name, isBlank c = false) (rest : Text) :
    splitOn ' ' (declared type name rest) =
      "public".toList :: type :: name :: splitOn ' ' ("\x7b get; set; \x7d".toList ++ rest) := by
  have form : declared type name rest = "public".toList ++ ' ' :: (type ++ ' ' ::
      (name ++ ' ' :: ("\x7b get; set; \x7d".toList ++ rest))) := rfl
  rw [form, splitOn_append, splitOn_word typed, splitOn_word named]
  rfl

theorem ofLine_declared {blanks : Text} (blank : ∀ c ∈ blanks, isBlank c = true)
    (nonempty : type ≠ []) (typed : ∀ c ∈ type, isBlank c = false)
    (start : ∀ c ∈ name.head?, isWordStart c = true) (named : name ≠ []) (plain : Plain name)
    (noHeader : ¬ (type.map foldCase = "partial".toList ∧ name.map foldCase = "class".toList))
    (single : '\n' ∉ rest) (last : ∀ c ∈ rest.getLast?, isBlank c = false) :
    ofLine (blanks ++ declared type name rest) = .member name .property := by
  have header : headerName? (declared type name rest) = none :=
    headerName?_declaration typed (fun c member => visible_of_isPlain (plain c member)) noHeader
  cases name with
  | nil => exact absurd rfl named
  | cons c name =>
    have member := memberName?_declared nonempty typed (start c rfl) plain single
    rw [ofLine, trim_declared blank last, ofTrimmed, header, member]
    rfl

end Declarations

end SchemaClasses.LineKind
