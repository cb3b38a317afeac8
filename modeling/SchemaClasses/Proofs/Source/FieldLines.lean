import SchemaClasses.Proofs.Source.PropertyLines

set_option autoImplicit false

namespace SchemaClasses

namespace Text

theorem words_eq_nil_iff {s : Text} : words s = [] ↔ ∀ c ∈ s, isBlank c = true := by
  constructor
  · induction s with
    | nil => exact fun _ => List.forall_mem_nil _
    | cons c s ih =>
      intro none
      by_cases blank : isBlank c = true
      · have same : words (c :: s) = words s := words_append blank [] s
        exact List.forall_mem_cons.mpr ⟨blank, ih (same ▸ none)⟩
      · rw [words, splitWhere, if_neg blank] at none
        cases pieces : splitWhere isBlank s <;> simp [pieces, consFirst] at none
  · intro blank
    have none := words_blanks_append blank []
    rwa [List.append_nil] at none

theorem run_indentOf {s : Text} (starts : s.head?.any isBlank = true) : Run isBlank (indentOf s) := by
  refine ⟨fun none => ?_, fun c => isBlank_of_mem_indentOf⟩
  cases s with
  | nil => cases starts
  | cons c s =>
    have first : isBlank c = true := by simpa using starts
    simp [indentOf, first] at none

end Text

namespace LineKind

open Text

structure MemberParts where
  keyword : Text
  typeGap : Text
  type : Text
  nameGap : Text
  name : Text
  ending : Text

namespace MemberParts

def text (parts : MemberParts) : Text :=
  parts.keyword ++ (parts.typeGap ++ (parts.type ++ (parts.nameGap ++ (parts.name ++ parts.ending))))

structure Valid (tail : Text → Bool) (parts : MemberParts) : Prop where
  keyword : parts.keyword.map foldCase = "public".toList
  typeGap : Run isBlank parts.typeGap
  type : parts.type ≠ [] ∧ '\n' ∉ parts.type
  nameGap : Run isBlank parts.nameGap
  name : Identifier parts.name
  ending : tail parts.ending = true

end MemberParts

section Reading

variable {tail : Text → Bool} {line name : Text}

theorem exists_type_of_nameAfterType? {s : Text} (found : nameAfterType? tail s = some name) :
    ∃ type gap rest, s = type ++ (gap ++ rest) ∧ (type ≠ [] ∧ '\n' ∉ type) ∧ Run isBlank gap ∧
      nameBefore? tail rest = some name := by
  induction s with
  | nil => cases found
  | cons c s ih =>
    rw [nameAfterType?] at found
    split at found
    · cases found
    · rename_i oneLine
      have behind (later : nameAfterType? tail s = some name) : ∃ type gap rest,
          c :: s = type ++ (gap ++ rest) ∧ (type ≠ [] ∧ '\n' ∉ type) ∧ Run isBlank gap ∧
            nameBefore? tail rest = some name := by
        obtain ⟨type, gap, rest, rfl, typed, between, read⟩ := ih later
        exact ⟨c :: type, gap, rest, rfl, ⟨List.cons_ne_nil c type,
          List.not_mem_cons_of_ne_of_not_mem (Ne.symm oneLine) typed.2⟩, between, read⟩
      split at found
      · rename_i starts
        rcases (Option.orElse_eq_some _ _ _).mp found with here | ⟨-, later⟩
        · refine ⟨[c], indentOf s, trimStart s, ?_, ⟨List.cons_ne_nil c [], ?_⟩,
            run_indentOf starts, here⟩
          · rw [indentOf_append_trimStart]
            rfl
          · exact List.not_mem_cons_of_ne_of_not_mem (Ne.symm oneLine) List.not_mem_nil
        · exact behind later
      · exact behind found

theorem exists_type_of_blankType {blanks : Text} (blank : ∀ c ∈ blanks, isBlank c = true)
    (enough : blankType blanks = true) : ∃ typeGap type nameGap,
      blanks = typeGap ++ (type ++ nameGap) ∧ Run isBlank typeGap ∧ (type ≠ [] ∧ '\n' ∉ type) ∧
        Run isBlank nameGap := by
  cases blanks with
  | nil => cases enough
  | cons b blanks =>
    obtain rfl | ⟨inner, last, rfl⟩ := List.eq_nil_or_concat blanks
    · cases enough
    · rw [List.concat_eq_append] at blank enough ⊢
      have middle : inner.any (· ≠ '\n') = true := by simpa [blankType] using enough
      obtain ⟨c, member, oneLine⟩ := List.any_eq_true.mp middle
      obtain ⟨before, after, rfl⟩ := List.append_of_mem member
      refine ⟨b :: before, [c], after ++ [last], by simp, ⟨List.cons_ne_nil _ _, fun d inside => ?_⟩,
        ⟨List.cons_ne_nil _ _, ?_⟩, ⟨by simp, fun d inside => ?_⟩⟩
      · exact blank d (by simp at inside ⊢; tauto)
      · exact fun inside => of_decide_eq_true oneLine (List.mem_singleton.mp inside).symm
      · exact blank d (by simp at inside ⊢; tauto)

theorem exists_parts_of_memberName? (found : memberName? tail line = some name) :
    ∃ parts : MemberParts, line = parts.text ∧ parts.Valid tail ∧ parts.name = name := by
  have read {keyword typeGap type nameGap rest : Text} (keyed : keyword.map foldCase = "public".toList)
      (before : Run isBlank typeGap) (typed : type ≠ [] ∧ '\n' ∉ type) (between : Run isBlank nameGap)
      (named : nameBefore? tail rest = some name) : ∃ parts : MemberParts,
        keyword ++ (typeGap ++ (type ++ (nameGap ++ rest))) = parts.text ∧ parts.Valid tail ∧
          parts.name = name := by
    obtain ⟨ending, rfl, ended⟩ := exists_ending_of_nameBefore? named
    exact ⟨⟨keyword, typeGap, type, nameGap, name, ending⟩, rfl,
      ⟨keyed, before, typed, between, identifier_of_nameBefore? named, ended⟩, rfl⟩
  unfold memberName? at found
  split at found
  · cases found
  · rename_i after dropped
    obtain ⟨keyword, rfl, keyed⟩ := dropStartFolded?_eq_some_iff.mp dropped
    split at found
    · cases found
    · rename_i nonempty
      have blank : ∀ c ∈ indentOf after, isBlank c = true := fun _ => isBlank_of_mem_indentOf
      rw [← indentOf_append_trimStart after]
      rcases (Option.orElse_eq_some _ _ _).mp found with typed | ⟨-, untyped⟩
      · obtain ⟨type, gap, rest, split, visible, between, named⟩ := exists_type_of_nameAfterType? typed
        rw [split]
        exact read keyed ⟨nonempty, blank⟩ visible between named
      · split at untyped
        · rename_i enough
          obtain ⟨typeGap, type, nameGap, split, before, typed, between⟩ :=
            exists_type_of_blankType blank enough
          rw [split, List.append_assoc, List.append_assoc]
          exact read keyed before typed between untyped
        · cases untyped

theorem exists_name_after_type {type gap rest : Text} (typed : type ≠ [] ∧ '\n' ∉ type)
    (between : Run isBlank gap) (visible : ∀ c ∈ rest.head?, isBlank c = false)
    (named : nameBefore? tail rest = some name) :
    ∃ found, nameAfterType? tail (type ++ (gap ++ rest)) = some found := by
  obtain ⟨nonempty, oneLine⟩ := typed
  induction type with
  | nil => contradiction
  | cons c type ih =>
    obtain ⟨here, oneLine⟩ := not_or.mp (List.mem_cons.not.mp oneLine)
    rw [List.cons_append, nameAfterType?, if_neg (Ne.symm here)]
    cases type with
    | nil =>
      obtain ⟨b, others, same⟩ := List.exists_cons_of_ne_nil between.1
      have starts : ([] ++ (gap ++ rest)).head?.any isBlank = true := by
        simp [same, between.2 b (same ▸ List.mem_cons_self)]
      rw [if_pos starts, List.nil_append, trimStart_gap between.2 visible, named]
      exact ⟨name, rfl⟩
    | cons d type =>
      obtain ⟨found, later⟩ := ih (List.cons_ne_nil d type) oneLine
      rw [later]
      split
      · cases nameBefore? tail (trimStart (d :: type ++ (gap ++ rest))) with
        | none => exact ⟨found, rfl⟩
        | some other => exact ⟨other, rfl⟩
      · exact ⟨found, rfl⟩

theorem blankType_append {typeGap type nameGap : Text} (before : typeGap ≠ [])
    (typed : type ≠ [] ∧ '\n' ∉ type) (between : nameGap ≠ []) :
    blankType (typeGap ++ (type ++ nameGap)) = true := by
  obtain ⟨b, others, rfl⟩ := List.exists_cons_of_ne_nil before
  obtain ⟨inner, last, rfl⟩ := (List.eq_nil_or_concat nameGap).resolve_left between
  obtain ⟨c, more, rfl⟩ := List.exists_cons_of_ne_nil typed.1
  have oneLine : c ≠ '\n' := fun same => typed.2 (same ▸ List.mem_cons_self)
  have whole : b :: others ++ (c :: more ++ inner.concat last) =
      b :: ((others ++ c :: (more ++ inner)) ++ [last]) := by
    simp
  rw [whole, blankType, List.drop_succ_cons, List.drop_zero, List.dropLast_concat]
  simp [oneLine]

section Names

variable {parts : MemberParts}

theorem MemberParts.Valid.name_read (stops : ∀ s, tail s = true → s.head?.any isWordPart = false)
    (valid : parts.Valid tail) :
    nameBefore? tail (parts.name ++ parts.ending) = some parts.name := by
  obtain ⟨c, letters, named, start, rest⟩ := valid.name
  rw [named]
  exact nameBefore?_word start rest (stops _ valid.ending) valid.ending

theorem MemberParts.Valid.name_visible (valid : parts.Valid tail) :
    ∀ c ∈ (parts.name ++ parts.ending).head?, isBlank c = false := by
  intro c first
  rw [List.head?_append_of_ne_nil _ valid.name.nonempty] at first
  exact valid.name.visible c (List.mem_of_head? first)

theorem exists_name_of_blank_type (stops : ∀ s, tail s = true → s.head?.any isWordPart = false)
    (valid : parts.Valid tail) (typeless : ∀ c ∈ parts.type, isBlank c = true) :
    ∃ found, memberName? tail parts.text = some found := by
  have blanks : ∀ c ∈ parts.typeGap ++ (parts.type ++ parts.nameGap), isBlank c = true := by
    intro c member
    rcases List.mem_append.mp member with before | behind
    · exact valid.typeGap.2 c before
    · exact (List.mem_append.mp behind).elim (typeless c) (valid.nameGap.2 c)
  have whole : parts.text = parts.keyword ++
      ((parts.typeGap ++ (parts.type ++ parts.nameGap)) ++ (parts.name ++ parts.ending)) := by
    simp [MemberParts.text]
  have indented : parts.typeGap ++ (parts.type ++ parts.nameGap) ≠ [] := by
    simp [valid.typeGap.1]
  rw [whole, memberName?, dropStartFolded?_append valid.keyword]
  simp only [indentOf_gap blanks valid.name_visible, trimStart_gap blanks valid.name_visible,
    indented, if_false, blankType_append valid.typeGap.1 valid.type valid.nameGap.1, if_true,
    valid.name_read stops]
  cases nameAfterType? tail (parts.name ++ parts.ending) with
  | none => exact ⟨parts.name, rfl⟩
  | some other => exact ⟨other, rfl⟩

theorem exists_name_of_visible_type (stops : ∀ s, tail s = true → s.head?.any isWordPart = false)
    (valid : parts.Valid tail) (typed : ¬ ∀ c ∈ parts.type, isBlank c = true) :
    ∃ found, memberName? tail parts.text = some found := by
  -- Blanks at the start of the type belong to the gap in front of it.
  have gap : ∀ c ∈ parts.typeGap ++ indentOf parts.type, isBlank c = true := fun c member =>
    (List.mem_append.mp member).elim (valid.typeGap.2 c) isBlank_of_mem_indentOf
  have word : trimStart parts.type ≠ [] := fun none =>
    typed fun c member => List.dropWhile_eq_nil_iff.mp none c member
  have visible : ∀ c ∈ (trimStart parts.type ++
      (parts.nameGap ++ (parts.name ++ parts.ending))).head?, isBlank c = false := by
    intro c first
    rw [List.head?_append_of_ne_nil _ word] at first
    exact visible_of_head?_trimStart first
  have oneLine : '\n' ∉ trimStart parts.type := fun member =>
    valid.type.2 ((trimStart_suffix parts.type).subset member)
  have whole : parts.text = parts.keyword ++ ((parts.typeGap ++ indentOf parts.type) ++
      (trimStart parts.type ++ (parts.nameGap ++ (parts.name ++ parts.ending)))) := by
    rw [List.append_assoc, ← List.append_assoc (indentOf parts.type), indentOf_append_trimStart]
    rfl
  have indented : parts.typeGap ++ indentOf parts.type ≠ [] := by simp [valid.typeGap.1]
  obtain ⟨found, later⟩ := exists_name_after_type ⟨word, oneLine⟩ valid.nameGap valid.name_visible
    (valid.name_read stops)
  rw [whole, memberName?, dropStartFolded?_append valid.keyword]
  simp only [indentOf_gap gap visible, trimStart_gap gap visible, indented, if_false, later]
  exact ⟨found, rfl⟩

theorem exists_name_of_parts (stops : ∀ s, tail s = true → s.head?.any isWordPart = false)
    (valid : parts.Valid tail) : ∃ found, memberName? tail parts.text = some found := by
  by_cases typeless : ∀ c ∈ parts.type, isBlank c = true
  · exact exists_name_of_blank_type stops valid typeless
  · exact exists_name_of_visible_type stops valid typeless

end Names

end Reading

section Fields

variable {line name : Text}

theorem fieldTail_iff {s : Text} : fieldTail s = true ↔
    ∃ blanks, (∀ c ∈ blanks, isBlank c = true) ∧ (s = blanks ∨ s = blanks ++ [';']) := by
  rw [fieldTail, Bool.or_eq_true, beq_iff_eq, beq_iff_eq]
  constructor
  · intro ends
    refine ⟨indentOf s, fun _ => isBlank_of_mem_indentOf, ?_⟩
    have whole := indentOf_append_trimStart s
    rcases ends with none | semicolon
    · rw [none, List.append_nil] at whole
      exact .inl whole.symm
    · rw [semicolon] at whole
      exact .inr whole.symm
  · rintro ⟨blanks, blank, rfl | rfl⟩
    · exact .inl (List.dropWhile_eq_nil_iff.mpr blank)
    · exact .inr (trimStart_gap blank (by simp [isBlank]))

theorem stops_of_fieldTail {s : Text} (ended : fieldTail s = true) :
    s.head?.any isWordPart = false := by
  obtain ⟨blanks, blank, form⟩ := fieldTail_iff.mp ended
  cases blanks with
  | nil => rcases form with rfl | rfl <;> rfl
  | cons b blanks =>
    have hidden := blank b List.mem_cons_self
    have first : s.head? = some b := by rcases form with rfl | rfl <;> rfl
    rw [first]
    by_contra part
    rw [Option.any_some, Bool.not_eq_false] at part
    rw [visible_of_isWordPart part] at hidden
    cases hidden

def withoutSemicolon (line : Text) : Text :=
  if line.getLast? = some ';' then line.dropLast else line

/-- What starts a value, ends a declaration, or opens parameters or a body. -/
def signs : Text := ['=', ';', '(', '\x7b']

def IsType (s : Text) : Prop :=
  (∃ c ∈ s, isBlank c = false) ∧ ∀ c ∈ s, c ∉ signs

theorem of_mem_signs {c : Char} (sign : c ∈ signs) :
    isBlank c = false ∧ isWordPart c = false ∧ foldCase c ∉ "public".toList := by
  simp only [signs, List.mem_cons, List.not_mem_nil, or_false] at sign
  rcases sign with rfl | rfl | rfl | rfl <;> decide

theorem notMem_signs_of_isBlank {c : Char} (blank : isBlank c = true) : c ∉ signs := fun sign =>
  Bool.false_ne_true ((of_mem_signs sign).1.symm.trans blank)

theorem notMem_signs_of_isWordPart {c : Char} (part : isWordPart c = true) : c ∉ signs := fun sign =>
  Bool.false_ne_true ((of_mem_signs sign).2.1.symm.trans part)

namespace MemberParts

variable {parts : MemberParts}

def between (parts : MemberParts) : Text := parts.typeGap ++ (parts.type ++ parts.nameGap)

theorem Valid.keyword_notMem_signs {tail : Text → Bool} (valid : parts.Valid tail) :
    ∀ c ∈ parts.keyword, c ∉ signs := by
  intro c member sign
  have letter : foldCase c ∈ "public".toList := valid.keyword ▸ List.mem_map_of_mem member
  exact (of_mem_signs sign).2.2 letter

theorem Valid.withoutSemicolon_eq (valid : parts.Valid fieldTail) :
    ∃ blanks, (∀ c ∈ blanks, isBlank c = true) ∧
      withoutSemicolon parts.text = parts.keyword ++ (parts.between ++ (parts.name ++ blanks)) := by
  obtain ⟨blanks, blank, form⟩ := fieldTail_iff.mp valid.ending
  refine ⟨blanks, blank, ?_⟩
  rcases form with ending | ending
  · have last : parts.text.getLast? ≠ some ';' := by
      intro semicolon
      have whole : parts.text = (parts.keyword ++ parts.between) ++ (parts.name ++ blanks) := by
        simp [text, between, ending]
      rw [whole, List.getLast?_append_of_ne_nil _ (by simp [valid.name.nonempty])] at semicolon
      rcases List.mem_append.mp (List.mem_of_getLast? semicolon) with named | behind
      · exact notMem_signs_of_isWordPart (valid.name.parts _ named) (by decide)
      · exact notMem_signs_of_isBlank (blank _ behind) (by decide)
    rw [withoutSemicolon, if_neg last]
    simp [text, between, ending]
  · have whole : parts.text = (parts.keyword ++ (parts.between ++ (parts.name ++ blanks))) ++ [';'] := by
      simp [text, between, ending]
    rw [withoutSemicolon, whole, List.getLast?_concat, if_pos rfl, List.dropLast_concat]

theorem Valid.words_eq (valid : parts.Valid fieldTail) :
    words (withoutSemicolon parts.text) =
      parts.keyword :: (words parts.type ++ [parts.name]) := by
  obtain ⟨blanks, blank, whole⟩ := valid.withoutSemicolon_eq
  have named : parts.keyword ≠ [] := by
    intro none
    have folded := valid.keyword
    rw [none] at folded
    cases folded
  have visible : ∀ c ∈ parts.keyword, isBlank c = false :=
    visible_of_folded (by simp [isBlank]) valid.keyword
  obtain ⟨b, gap, nameGap⟩ := List.exists_cons_of_ne_nil valid.nameGap.1
  obtain ⟨here, later⟩ := List.forall_mem_cons.mp (nameGap ▸ valid.nameGap.2)
  rw [whole, between, List.append_assoc, words_gap named visible valid.typeGap, nameGap,
    List.append_assoc, List.cons_append, words_append here, words_blanks_append later,
    words_append_blanks blank, words_word valid.name.nonempty valid.name.visible]

theorem Valid.last_word (valid : parts.Valid fieldTail) :
    (words (withoutSemicolon parts.text)).getLast? = some parts.name := by
  rw [valid.words_eq, ← List.cons_append, List.getLast?_concat]

theorem Valid.exists_visible_iff {tail : Text → Bool} (valid : parts.Valid tail) :
    (∃ c ∈ parts.between, isBlank c = false) ↔ words parts.type ≠ [] := by
  rw [Ne, words_eq_nil_iff, not_forall]
  constructor
  · rintro ⟨c, member, visible⟩
    refine ⟨c, fun blanks => ?_⟩
    have hidden : isBlank c = true := by
      rcases List.mem_append.mp member with before | behind
      · exact valid.typeGap.2 c before
      · exact (List.mem_append.mp behind).elim blanks (valid.nameGap.2 c)
    rw [hidden] at visible
    cases visible
  · rintro ⟨c, visible⟩
    obtain ⟨member, visible⟩ := Classical.not_imp.mp visible
    exact ⟨c, by simp [between, member], eq_false_of_ne_true visible⟩

theorem Valid.isType_iff (valid : parts.Valid fieldTail) : IsType parts.between ↔
    3 ≤ (words (withoutSemicolon parts.text)).length ∧
      ∀ c ∈ withoutSemicolon parts.text, c ∉ signs := by
  refine and_congr ?_ ?_
  · rw [valid.exists_visible_iff, valid.words_eq, ← List.length_pos_iff]
    simp
    omega
  · obtain ⟨blanks, blank, whole⟩ := valid.withoutSemicolon_eq
    rw [whole]
    constructor
    · intro plain c member
      rcases List.mem_append.mp member with first | member
      · exact valid.keyword_notMem_signs c first
      rcases List.mem_append.mp member with typed | member
      · exact plain c typed
      rcases List.mem_append.mp member with named | behind
      · exact notMem_signs_of_isWordPart (valid.name.parts c named)
      · exact notMem_signs_of_isBlank (blank c behind)
    · intro plain c member
      exact plain c (by simp [member])

end MemberParts

theorem memberName?_field_iff : memberName? fieldTail line = some name ↔
    ∃ parts : MemberParts, line = parts.text ∧ parts.Valid fieldTail ∧ parts.name = name := by
  constructor
  · exact exists_parts_of_memberName?
  · rintro ⟨parts, rfl, valid, rfl⟩
    obtain ⟨found, read⟩ := exists_name_of_parts (fun _ => stops_of_fieldTail) valid
    obtain ⟨others, same, also, rfl⟩ := exists_parts_of_memberName? read
    -- Both names are the last word of the line.
    have last := also.last_word
    rw [← same, valid.last_word] at last
    exact read.trans last.symm

theorem ofTrimmed_field_iff : ofTrimmed line = .member name .field ↔
    headerName? line = none ∧ memberName? propertyTail line = none ∧
      memberName? fieldTail line = some name := by
  constructor
  · intro kind
    obtain ⟨noProperty, found⟩ := (memberName?_of_ofTrimmed kind).resolve_left (by simp)
    obtain ⟨noOpen, noClose⟩ := ne_brace_of_memberName? found
    rw [ofTrimmed, if_neg noOpen, if_neg noClose] at kind
    cases header : headerName? line with
    | none => exact ⟨rfl, noProperty, found⟩
    | some other =>
      rw [header] at kind
      cases kind
  · rintro ⟨noHeader, noProperty, found⟩
    obtain ⟨noOpen, noClose⟩ := ne_brace_of_memberName? found
    rw [ofTrimmed, if_neg noOpen, if_neg noClose, noHeader, noProperty, found]

theorem fields_strict_iff (line name : Text) :
    (ofLine line = .member name .field ↔
      headerName? (trim line) = none ∧ memberName? propertyTail (trim line) = none ∧
        ∃ parts : MemberParts, trim line = parts.text ∧ parts.Valid fieldTail ∧ parts.name = name) ∧
    ∀ parts : MemberParts, trim line = parts.text → parts.Valid fieldTail →
      (words (withoutSemicolon (trim line))).getLast? = some parts.name ∧
      (IsType parts.between ↔ 3 ≤ (words (withoutSemicolon (trim line))).length ∧
        ∀ c ∈ withoutSemicolon (trim line), c ∉ signs) := by
  refine ⟨?_, fun parts whole valid => whole ▸ ⟨valid.last_word, valid.isType_iff⟩⟩
  rw [ofLine, ofTrimmed_field_iff, memberName?_field_iff]

theorem type_of_counter :
    let parts : MemberParts :=
      ⟨"public".toList, [' '], "int".toList, [' '], "Count".toList, [';']⟩
    ofLine parts.text = .member "Count".toList .field ∧ IsType parts.between := by
  intro parts
  have whole : trim parts.text = parts.text := by decide
  have valid : parts.Valid fieldTail :=
    ⟨by decide, run_space, by decide, run_space,
      ⟨'C', "ount".toList, rfl, by decide, List.all_eq_true.mp (by decide)⟩, by decide⟩
  have plain : (withoutSemicolon parts.text).all (fun c => c ∉ signs) = true := by decide
  obtain ⟨kind, strict⟩ := fields_strict_iff parts.text "Count".toList
  refine ⟨kind.mpr ⟨by decide, by decide, parts, whole, valid, rfl⟩,
    (strict parts whole valid).2.mpr ⟨whole ▸ by decide, fun c member => ?_⟩⟩
  exact of_decide_eq_true (List.all_eq_true.mp plain c (whole ▸ member))

structure LooseField (line name : Text) : Prop where
  kind : ofLine line = .member name .field
  noType : ∀ parts : MemberParts, trim line = parts.text → parts.Valid fieldTail →
    ¬ IsType parts.between

theorem looseField_of_sign {line name : Text} {c : Char} (kind : ofLine line = .member name .field)
    (sign : c ∈ signs) (inside : c ∈ withoutSemicolon (trim line)) : LooseField line name := by
  refine ⟨kind, fun parts whole valid typed => ?_⟩
  rw [whole] at inside
  exact (valid.isType_iff.mp typed).2 c inside sign

theorem looseField_of_short {line name : Text} (kind : ofLine line = .member name .field)
    (short : (words (withoutSemicolon (trim line))).length < 3) : LooseField line name := by
  refine ⟨kind, fun parts whole valid typed => ?_⟩
  rw [whole] at short
  exact absurd (valid.isType_iff.mp typed).1 (Nat.not_le_of_lt short)

theorem names_behind_no_type :
    LooseField "public int Count = Default;".toList "Default".toList ∧
    LooseField "public int Total => total;".toList "total".toList ∧
    LooseField "public int Count; // total".toList "total".toList ∧
    LooseField "public   Count;".toList "Count".toList := by
  refine ⟨?_, ?_, ?_, ?_⟩
  · exact looseField_of_sign (c := '=') (by decide +kernel) (by decide) (by decide)
  · exact looseField_of_sign (c := '=') (by decide +kernel) (by decide) (by decide)
  · exact looseField_of_sign (c := ';') (by decide +kernel) (by decide) (by decide)
  · exact looseField_of_short (by decide +kernel) (by decide)

end Fields

end LineKind

end SchemaClasses
