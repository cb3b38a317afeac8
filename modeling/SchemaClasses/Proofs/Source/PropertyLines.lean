import SchemaClasses.Proofs.Source.ClassOutline
import SchemaClasses.Proofs.Source.ShorthandTokens
import SchemaClasses.Proofs.Source.WrittenShorthand

set_option autoImplicit false

/-!
Lines with accessors. Of all the ways to read such a line the one with the shortest type counts, and a
type without a brace cannot end behind the first one, so the name is the word in front of the accessors
whatever stands behind them (`property_named_before_accessors`).
-/

namespace SchemaClasses

namespace Text

theorem words_append_blanks {blanks : Text} (blank : ∀ c ∈ blanks, isBlank c = true) (s : Text) :
    words (s ++ blanks) = words s := by
  cases blanks with
  | nil => rw [List.append_nil]
  | cons b blanks =>
    obtain ⟨here, later⟩ := List.forall_mem_cons.mp blank
    have none := words_blanks_append later []
    rw [List.append_nil] at none
    rw [words_append here, none]
    exact List.append_nil _

theorem words_trimStart (s : Text) : words (trimStart s) = words s := by
  have whole := words_blanks_append (fun _ => isBlank_of_mem_indentOf (s := s)) (trimStart s)
  rw [indentOf_append_trimStart] at whole
  exact whole.symm

theorem trimStart_append_cons {c : Char} (visible : isBlank c = false) (s rest : Text) :
    trimStart (s ++ c :: rest) = trimStart s ++ c :: rest := by
  simp only [trimStart, List.dropWhile_append]
  split <;> simp_all

end Text

namespace Identifier

variable {name : Text}

theorem nonempty (named : Identifier name) : name ≠ [] := by
  obtain ⟨c, letters, rfl, -⟩ := named
  exact List.cons_ne_nil c letters

theorem parts (named : Identifier name) : ∀ c ∈ name, Text.isWordPart c = true := by
  obtain ⟨c, letters, rfl, start, parts⟩ := named
  exact List.forall_mem_cons.mpr ⟨by simp [Text.isWordPart, start], parts⟩

theorem visible (named : Identifier name) : ∀ c ∈ name, Text.isBlank c = false :=
  fun c member => Text.visible_of_isWordPart (named.parts c member)

end Identifier

namespace LineKind

open Text

/-- A pattern without regard to case, and any blanks in front of it. -/
def Spaced (pattern s : Text) : Prop :=
  ∃ blanks read, s = blanks ++ read ∧ (∀ c ∈ blanks, isBlank c = true) ∧
    read.map foldCase = pattern

def Accessors (s : Text) : Prop :=
  ∃ opening getter setter closing, s = opening ++ (getter ++ (setter ++ closing)) ∧
    Spaced ['\x7b'] opening ∧ Spaced "get;".toList getter ∧ Spaced "set;".toList setter ∧
    Spaced ['\x7d'] closing

def StartsHeader (line : Text) : Prop :=
  ∃ read b after, line = read ++ b :: after ∧
    read.map foldCase = "public partial class".toList ∧ isBlank b = true

instance (line : Text) : Decidable (StartsHeader line) :=
  decidable_of_iff ((dropStartFolded? "public partial class".toList line).any
      (fun after => after.head?.any isBlank) = true) <| by
    simp only [Option.any_eq_true, dropStartFolded?_eq_some_iff]
    constructor
    · rintro ⟨after, ⟨read, rfl, folded⟩, b, first, blank⟩
      obtain ⟨rest, rfl⟩ := List.head?_eq_some_iff.mp first
      exact ⟨read, b, rest, rfl, folded, blank⟩
    · rintro ⟨read, b, rest, rfl, folded, blank⟩
      exact ⟨b :: rest, ⟨read, rfl, folded⟩, b, rfl, blank⟩

theorem headerName?_eq_none {line : Text} (noHeader : ¬ StartsHeader line) :
    headerName? line = none := by
  cases found : headerName? line with
  | none => rfl
  | some name =>
    obtain ⟨read, blanks, rest, rfl, folded, nonempty, blank, -⟩ := headerName?_eq_some found
    obtain ⟨b, blanks, rfl⟩ := List.exists_cons_of_ne_nil nonempty
    exact absurd ⟨read, b, _, rfl, folded, blank b List.mem_cons_self⟩ noHeader

theorem visible_of_folded {pattern read : Text} (visible : ∀ c ∈ pattern, isBlank c = false)
    (folded : read.map foldCase = pattern) : ∀ c ∈ read, isBlank c = false := by
  intro c member
  rw [← isBlank_foldCase]
  exact visible _ (folded ▸ List.mem_map_of_mem member)

theorem dropBlankThen?_of_spaced {pattern part : Text} (nonempty : pattern ≠ [])
    (visible : ∀ c ∈ pattern, isBlank c = false) (spaced : Spaced pattern part) (rest : Text) :
    dropBlankThen? pattern (part ++ rest) = some rest := by
  obtain ⟨blanks, read, rfl, blank, folded⟩ := spaced
  have starts : ∀ c ∈ (read ++ rest).head?, isBlank c = false := by
    have word : read ≠ [] := fun none => nonempty (folded ▸ congrArg (List.map foldCase) none)
    intro c first
    rw [List.head?_append_of_ne_nil _ word] at first
    exact visible_of_folded visible folded c (List.mem_of_head? first)
  rw [dropBlankThen?, List.append_assoc, trimStart_gap blank starts]
  exact dropStartFolded?_append folded rest

theorem exists_spaced {pattern s rest : Text} (dropped : dropBlankThen? pattern s = some rest) :
    ∃ part, s = part ++ rest ∧ Spaced pattern part := by
  obtain ⟨read, split, folded⟩ := dropStartFolded?_eq_some_iff.mp dropped
  refine ⟨indentOf s ++ read, ?_, indentOf s, read, rfl, fun _ => isBlank_of_mem_indentOf, folded⟩
  rw [List.append_assoc, ← split, indentOf_append_trimStart]

theorem propertyTail_iff {s : Text} : propertyTail s = true ↔
    ∃ accessors rest, s = accessors ++ rest ∧ Accessors accessors ∧ '\n' ∉ rest := by
  constructor
  · intro accepted
    unfold propertyTail at accepted
    split at accepted
    · rename_i rest read
      obtain ⟨first, one, read⟩ := Option.bind_eq_some_iff.mp read
      obtain ⟨second, two, read⟩ := Option.bind_eq_some_iff.mp read
      obtain ⟨third, three, four⟩ := Option.bind_eq_some_iff.mp read
      obtain ⟨opening, rfl, opened⟩ := exists_spaced one
      obtain ⟨getter, rfl, got⟩ := exists_spaced two
      obtain ⟨setter, rfl, written⟩ := exists_spaced three
      obtain ⟨closing, rfl, closed⟩ := exists_spaced four
      exact ⟨opening ++ (getter ++ (setter ++ closing)), rest, by simp,
        ⟨opening, getter, setter, closing, rfl, opened, got, written, closed⟩,
        of_decide_eq_true accepted⟩
    · cases accepted
  · rintro ⟨-, rest, rfl, ⟨opening, getter, setter, closing, rfl, opened, got, written, closed⟩,
      single⟩
    have one := dropBlankThen?_of_spaced (by decide) (by simp [isBlank]) opened
    have two := dropBlankThen?_of_spaced (by decide) (by simp [isBlank]) got
    have three := dropBlankThen?_of_spaced (by decide) (by simp [isBlank]) written
    have four := dropBlankThen?_of_spaced (by decide) (by simp [isBlank]) closed
    simp only [propertyTail, List.append_assoc, one, two, three, four, Option.bind_some, single,
      not_false_iff, decide_true]

theorem Accessors.exists_brace {accessors : Text} (accessed : Accessors accessors) :
    ∃ blanks more, accessors = blanks ++ '\x7b' :: more ∧ ∀ c ∈ blanks, isBlank c = true := by
  obtain ⟨-, getter, setter, closing, rfl, ⟨blanks, read, rfl, blank, folded⟩, -⟩ := accessed
  obtain ⟨brace, rfl, letter⟩ := List.map_eq_singleton_iff.mp folded
  obtain rfl := eq_of_foldCase (by decide) letter
  exact ⟨blanks, getter ++ (setter ++ closing), by simp, blank⟩

theorem brace_notMem {word blanks : Text} (parts : ∀ c ∈ word, isWordPart c = true)
    (blank : ∀ c ∈ blanks, isBlank c = true) : '\x7b' ∉ word ++ blanks := by
  refine List.not_mem_append (fun member => ?_) (fun member => ?_)
  · exact absurd (parts _ member) (by decide)
  · exact absurd (blank _ member) (by decide)

theorem words_of_nameBefore? {front more found : Text} (noBrace : '\x7b' ∉ front)
    (read : nameBefore? propertyTail (front ++ '\x7b' :: more) = some found) :
    words front = [found] := by
  have named := identifier_of_nameBefore? read
  obtain ⟨ending, split, accepted⟩ := exists_ending_of_nameBefore? read
  obtain ⟨accessors, rest, rfl, accessed, -⟩ := propertyTail_iff.mp accepted
  obtain ⟨blanks, inner, rfl, blank⟩ := accessed.exists_brace
  have whole : front ++ '\x7b' :: more = (found ++ blanks) ++ '\x7b' :: (inner ++ rest) := by
    rw [split]
    simp
  have once := splitOnce?_append (brace_notMem named.parts blank) (inner ++ rest)
  rw [← whole, splitOnce?_append noBrace] at once
  obtain ⟨rfl, -⟩ := Prod.mk.inj (Option.some.inj once)
  rw [words_append_blanks blank, words_word named.nonempty named.visible]

theorem name_eq_of_early {type gap name blanks more other : Text} (noBrace : '\x7b' ∉ type)
    (between : Run isBlank gap) (named : Identifier name) (blank : ∀ c ∈ blanks, isBlank c = true)
    (early : nameBefore? propertyTail
      (trimStart (type ++ (gap ++ (name ++ (blanks ++ '\x7b' :: more))))) = some other) :
    other = name := by
  have whole : type ++ (gap ++ (name ++ (blanks ++ '\x7b' :: more))) =
      (type ++ (gap ++ (name ++ blanks))) ++ '\x7b' :: more := by
    simp
  have absent : '\x7b' ∉ trimStart (type ++ (gap ++ (name ++ blanks))) := fun member =>
    List.not_mem_append noBrace
      (List.not_mem_append (fun inside => absurd (between.2 _ inside) (by decide))
        (brace_notMem named.parts blank)) ((trimStart_suffix _).subset member)
  rw [whole, trimStart_append_cons (by decide)] at early
  have one := words_of_nameBefore? absent early
  obtain ⟨b, gap, rfl⟩ := List.exists_cons_of_ne_nil between.1
  obtain ⟨here, later⟩ := List.forall_mem_cons.mp between.2
  rw [words_trimStart, List.cons_append, words_append here, words_blanks_append later,
    words_append_blanks blank, words_word named.nonempty named.visible] at one
  have last := congrArg List.getLast? one
  simpa using last.symm

theorem nameAfterType?_before_brace {type gap name blanks more : Text} (nonempty : type ≠ [])
    (oneLine : '\n' ∉ type) (noBrace : '\x7b' ∉ type) (between : Run isBlank gap)
    (named : Identifier name) (blank : ∀ c ∈ blanks, isBlank c = true)
    (found : nameBefore? propertyTail (name ++ (blanks ++ '\x7b' :: more)) = some name) :
    nameAfterType? propertyTail (type ++ (gap ++ (name ++ (blanks ++ '\x7b' :: more)))) =
      some name := by
  induction type with
  | nil => contradiction
  | cons c type ih =>
    obtain ⟨here, oneLine⟩ := not_or.mp (List.mem_cons.not.mp oneLine)
    rw [List.cons_append, nameAfterType?, if_neg (Ne.symm here)]
    cases type with
    | nil =>
      have starts : (gap ++ (name ++ (blanks ++ '\x7b' :: more))).head?.any isBlank = true := by
        obtain ⟨b, gap, rfl⟩ := List.exists_cons_of_ne_nil between.1
        simp [between.2 b List.mem_cons_self]
      have visible : ∀ d ∈ (name ++ (blanks ++ '\x7b' :: more)).head?, isBlank d = false := by
        obtain ⟨d, letters, rfl⟩ := List.exists_cons_of_ne_nil named.nonempty
        exact fun e first => Option.some.inj first ▸ named.visible d List.mem_cons_self
      rw [List.nil_append, if_pos starts, trimStart_gap between.2 visible, found]
      rfl
    | cons d type =>
      have later := ih (List.cons_ne_nil d type) oneLine
        fun member => noBrace (List.mem_cons_of_mem c member)
      split
      · cases early : nameBefore? propertyTail
            (trimStart (d :: type ++ (gap ++ (name ++ (blanks ++ '\x7b' :: more))))) with
        | none => exact later
        | some other =>
          obtain rfl := name_eq_of_early (fun member => noBrace (List.mem_cons_of_mem c member))
            between named blank early
          rfl
      · exact later

theorem Accessors.stops {accessors : Text} (accessed : Accessors accessors) (rest : Text) :
    (accessors ++ rest).head?.any isWordPart = false := by
  obtain ⟨blanks, more, rfl, blank⟩ := accessed.exists_brace
  cases blanks with
  | nil => rfl
  | cons b blanks =>
    have hidden := blank b List.mem_cons_self
    by_contra part
    rw [Bool.not_eq_false] at part
    rw [visible_of_isWordPart part] at hidden
    cases hidden

theorem memberName?_accessors {keyword typeGap type nameGap name accessors rest : Text}
    (keyed : keyword.map foldCase = "public".toList) (beforeType : Run isBlank typeGap)
    (nonempty : type ≠ []) (starts : ∀ c ∈ type.head?, isBlank c = false) (oneLine : '\n' ∉ type)
    (noBrace : '\x7b' ∉ type) (beforeName : Run isBlank nameGap) (named : Identifier name)
    (accessed : Accessors accessors) (single : '\n' ∉ rest) :
    memberName? propertyTail
      (keyword ++ (typeGap ++ (type ++ (nameGap ++ (name ++ (accessors ++ rest)))))) = some name := by
  have accepted : propertyTail (accessors ++ rest) = true :=
    propertyTail_iff.mpr ⟨accessors, rest, rfl, accessed, single⟩
  have found : nameBefore? propertyTail (name ++ (accessors ++ rest)) = some name := by
    obtain ⟨c, letters, rfl, start, parts⟩ := named
    exact nameBefore?_word start parts (accessed.stops rest) accepted
  obtain ⟨blanks, more, rfl, blank⟩ := accessed.exists_brace
  rw [List.append_assoc, List.cons_append] at found ⊢
  have typed := nameAfterType?_before_brace nonempty oneLine noBrace beforeName named blank found
  have first : ∀ c ∈ (type ++ (nameGap ++ (name ++ (blanks ++ '\x7b' :: (more ++ rest))))).head?,
      isBlank c = false := by
    obtain ⟨d, letters, rfl⟩ := List.exists_cons_of_ne_nil nonempty
    exact starts
  simp only [memberName?, dropStartFolded?_append keyed, indentOf_gap beforeType.2 first,
    trimStart_gap beforeType.2 first, typed, beforeType.1, if_false]
  rfl

theorem ne_brace_of_memberName? {tail : Text → Bool} {line name : Text}
    (found : memberName? tail line = some name) : line ≠ ['\x7b'] ∧ line ≠ ['\x7d'] := by
  constructor <;> rintro rfl <;> simp [memberName?, dropStartFolded?] at found

theorem ofTrimmed_property {line name : Text} (noHeader : headerName? line = none)
    (found : memberName? propertyTail line = some name) :
    ofTrimmed line = .member name .property := by
  obtain ⟨noOpen, noClose⟩ := ne_brace_of_memberName? found
  rw [ofTrimmed, if_neg noOpen, if_neg noClose, noHeader, found]

theorem property_named_before_accessors {line keyword typeGap type nameGap name accessors rest : Text}
    (whole : trim line =
      keyword ++ (typeGap ++ (type ++ (nameGap ++ (name ++ (accessors ++ rest))))))
    (single : '\n' ∉ trim line) (keyed : keyword.map foldCase = "public".toList)
    (beforeType : Run isBlank typeGap) (nonempty : type ≠ [])
    (starts : ∀ c ∈ type.head?, isBlank c = false) (noBrace : '\x7b' ∉ type)
    (beforeName : Run isBlank nameGap) (named : Identifier name) (accessed : Accessors accessors)
    (noHeader : ¬ StartsHeader (trim line)) :
    ofLine line = .member name .property ∧
      ∀ number block depth, Scan.bodyLine block depth ⟨number, line⟩ =
        ({ block with properties := block.properties ++ [name] }, depth, []) := by
  have oneLine : '\n' ∉ type := fun member => single (by simp [whole, member])
  have restLine : '\n' ∉ rest := fun member => single (by simp [whole, member])
  have found := memberName?_accessors keyed beforeType nonempty starts oneLine noBrace beforeName
    named accessed restLine
  have kind : ofLine line = .member name .property :=
    ofTrimmed_property (headerName?_eq_none noHeader) (whole ▸ found)
  exact ⟨kind, fun number block depth => by rw [Scan.bodyLine, kind]⟩

def crowdedProperty : Text :=
  ("\tPublic  Map<string, List<int>> [ ]\tExtra \x7bget;  SET; \x7d" ++
    "= a; public int B \x7b get; set; \x7d = c;").toList

theorem extra_named_in_crowdedProperty :
    '\n' ∉ trim crowdedProperty ∧ ¬ StartsHeader (trim crowdedProperty) ∧
    ofLine crowdedProperty = .member "Extra".toList .property := by
  have whole : trim crowdedProperty = "Public".toList ++ ("  ".toList ++
      ("Map<string, List<int>> [ ]".toList ++ (['\t'] ++ ("Extra".toList ++
        (" \x7bget;  SET; \x7d".toList ++ "= a; public int B \x7b get; set; \x7d = c;".toList))))) := by
    decide +kernel
  have single : '\n' ∉ trim crowdedProperty := by decide +kernel
  have noHeader : ¬ StartsHeader (trim crowdedProperty) := by decide +kernel
  have starts : ∀ c ∈ "Map<string, List<int>> [ ]".toList.head?, isBlank c = false := by
    intro c first
    obtain rfl : 'M' = c := Option.some.inj first
    decide
  have two : Run isBlank "  ".toList := ⟨by decide, List.all_eq_true.mp (by decide)⟩
  have tab : Run isBlank ['\t'] := ⟨by decide, List.all_eq_true.mp (by decide)⟩
  have named : Identifier "Extra".toList :=
    ⟨'E', "xtra".toList, rfl, by decide, List.all_eq_true.mp (by decide)⟩
  have opening : Spaced ['\x7b'] " \x7b".toList := ⟨[' '], ['\x7b'], rfl, run_space.2, by decide⟩
  have getter : Spaced "get;".toList "get;".toList :=
    ⟨[], "get;".toList, rfl, List.forall_mem_nil _, by decide⟩
  have setter : Spaced "set;".toList "  SET;".toList :=
    ⟨"  ".toList, "SET;".toList, rfl, two.2, by decide⟩
  have closing : Spaced ['\x7d'] " \x7d".toList := ⟨[' '], ['\x7d'], rfl, run_space.2, by decide⟩
  have accessed : Accessors " \x7bget;  SET; \x7d".toList :=
    ⟨_, _, _, _, rfl, opening, getter, setter, closing⟩
  exact ⟨single, noHeader, (property_named_before_accessors whole single (by decide) two (by decide)
    starts (by decide) tab named accessed noHeader).1⟩

end LineKind

end SchemaClasses
