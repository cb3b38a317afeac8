import SchemaClasses.Proofs.Text.Letters
import SchemaClasses.Proofs.Text.Trim
import SchemaClasses.Source.Shorthand

set_option autoImplicit false

namespace SchemaClasses.Shorthand

open Text

theorem afterPart?_eq_some_iff {p : Char → Bool} (apart : ∀ c, p c = true → isBlank c = false)
    {s rest : Text} : afterPart? p s = some rest ↔
      ∃ run gap, s = run ++ (gap ++ rest) ∧ Run p run ∧ Run isBlank gap ∧
        ∀ c ∈ rest.head?, isBlank c = false := by
  constructor
  · intro found
    unfold afterPart? at found
    split at found
    · rename_i run after taken
      obtain ⟨rfl, whole, -⟩ := takeRun?_eq_some_iff.mp taken
      split at found
      · rename_i blank
        obtain rfl := Option.some.inj found
        refine ⟨run, indentOf after, by rw [indentOf_append_trimStart], whole,
          ⟨fun none => ?_, fun c => isBlank_of_mem_indentOf⟩, fun c => visible_of_head?_trimStart⟩
        cases after with
        | nil => cases blank
        | cons c after =>
          have first : isBlank c = true := by simpa using blank
          simp [indentOf, first] at none
      · cases found
    · cases found
  · rintro ⟨run, gap, rfl, whole, ⟨nonempty, blank⟩, visible⟩
    obtain ⟨b, gap, rfl⟩ := List.exists_cons_of_ne_nil nonempty
    have first : isBlank b = true := blank b List.mem_cons_self
    have ends : ∀ c ∈ (b :: gap ++ rest).head?, p c = false := by
      intro c here
      obtain rfl := Option.some.inj here
      cases part : p b with
      | false => rfl
      | true => exact absurd (apart b part) (by simp [first])
    have left : trimStart (b :: gap ++ rest) = rest := trimStart_gap blank visible
    have space : (b :: gap ++ rest).head?.any isBlank = true := by simp [first]
    simp only [afterPart?, takeRun?_eq_some_iff.mpr ⟨rfl, whole, ends⟩, space, if_true, left]

theorem visible_of_isTypePart {c : Char} (part : isTypePart c = true) : isBlank c = false := by
  simp only [isTypePart, Bool.or_eq_true, beq_iff_eq] at part
  rcases part with ((((letter | digit) | rfl) | rfl) | rfl) | rfl
  · exact visible_of_isLetter letter
  · exact visible_of_isWordPart (by simp [isWordPart, digit])
  all_goals decide

theorem defaultTail_equals {value : Text} (last : value.getLast? = some ';') (single : '\n' ∉ value) :
    defaultTail (' ' :: '=' :: value) = true := by
  have start : defaultTail (' ' :: '=' :: value) =
      (value.getLast? == some ';' && decide ('\n' ∉ value)) := rfl
  simp [start, last, single]

structure Parts where
  modifier : Text
  typeGap : Text
  typeName : Text
  nameGap : Text
  name : Text
  accessors : Text
  tail : Text

namespace Parts

def text (parts : Parts) : Text :=
  parts.modifier ++ (parts.typeGap ++ (parts.typeName ++ (parts.nameGap ++ (parts.name ++
    (parts.accessors ++ parts.tail)))))

structure Valid (parts : Parts) : Prop where
  modifier : Run isLetter parts.modifier
  typeGap : Run isBlank parts.typeGap
  typeName : Run isTypePart parts.typeName
  nameGap : Run isBlank parts.nameGap
  name : Run isTypePart parts.name
  accessors : parts.accessors.map foldCase = " \x7b get; set; \x7d".toList
  tail : defaultTail parts.tail = true

variable {parts : Parts}

theorem Valid.exists_accessors (valid : parts.Valid) :
    ∃ letters, parts.accessors = ' ' :: letters := by
  have folded := valid.accessors
  cases same : parts.accessors with
  | nil =>
    rw [same] at folded
    cases folded
  | cons c letters =>
    rw [same] at folded
    obtain rfl : c = ' ' := (foldCase_eq_of_lt (by decide)).mp (List.cons.inj folded).1
    exact ⟨letters, rfl⟩

end Parts

theorem visible_head_of_run {s : Text} (run : Run isTypePart s) (rest : Text) :
    ∀ c ∈ (s ++ rest).head?, isBlank c = false := by
  obtain ⟨nonempty, all⟩ := run
  obtain ⟨d, s, rfl⟩ := List.exists_cons_of_ne_nil nonempty
  intro c first
  obtain rfl := Option.some.inj first
  exact visible_of_isTypePart (all d List.mem_cons_self)

theorem hasForm_iff {line : Text} :
    hasForm line = true ↔ ∃ parts : Parts, line = parts.text ∧ parts.Valid := by
  constructor
  · intro form
    unfold hasForm at form
    split at form
    · rename_i name rest read
      split at form
      · rename_i tail dropped
        obtain ⟨beforeName, kept, taken⟩ := Option.bind_eq_some_iff.mp read
        obtain ⟨beforeType, first, second⟩ := Option.bind_eq_some_iff.mp kept
        obtain ⟨modifier, typeGap, rfl, letters, typeBlanks, -⟩ :=
          (afterPart?_eq_some_iff fun _ => visible_of_isLetter).mp first
        obtain ⟨typeName, nameGap, rfl, typeParts, nameBlanks, -⟩ :=
          (afterPart?_eq_some_iff fun _ => visible_of_isTypePart).mp second
        obtain ⟨rfl, nameParts, -⟩ := takeRun?_eq_some_iff.mp taken
        obtain ⟨accessors, rfl, folded⟩ := dropStartFolded?_eq_some_iff.mp dropped
        exact ⟨⟨modifier, typeGap, typeName, nameGap, name, accessors, tail⟩, rfl,
          letters, typeBlanks, typeParts, nameBlanks, nameParts, folded, form⟩
      · cases form
    · cases form
  · rintro ⟨parts, rfl, valid⟩
    obtain ⟨letters, starts⟩ := valid.exists_accessors
    have ends : ∀ c ∈ (parts.accessors ++ parts.tail).head?, isTypePart c = false := by
      intro c first
      rw [starts] at first
      obtain rfl := Option.some.inj first
      decide
    have first := (afterPart?_eq_some_iff fun _ => visible_of_isLetter).mpr
      ⟨_, _, rfl, valid.modifier, valid.typeGap, visible_head_of_run valid.typeName
        (parts.nameGap ++ (parts.name ++ (parts.accessors ++ parts.tail)))⟩
    have second := (afterPart?_eq_some_iff fun _ => visible_of_isTypePart).mpr
      ⟨_, _, rfl, valid.typeName, valid.nameGap, visible_head_of_run valid.name
        (parts.accessors ++ parts.tail)⟩
    have third := takeRun?_eq_some_iff.mpr ⟨rfl, valid.name, ends⟩
    have fourth : dropStartFolded? " \x7b get; set; \x7d".toList (parts.accessors ++ parts.tail) =
        some parts.tail := dropStartFolded?_eq_some_iff.mpr ⟨_, rfl, valid.accessors⟩
    simp only [hasForm, Parts.text, first, second, third, fourth, Option.bind_some, valid.tail]

end SchemaClasses.Shorthand
