import SchemaClasses.Proofs.Source.WrittenShorthand

set_option autoImplicit false

namespace SchemaClasses

namespace Text

/-- Words of a class, each with its own text behind it, and what is left behind the last one. -/
def readWords? (p : Char → Bool) : List Text → Text → Option (List Text × Text)
  | [], s => some ([], s)
  | closing :: closings, s =>
    match takeRun? p s with
    | some (word, behind) =>
      ((dropStart? closing behind).bind (readWords? p closings)).map fun (words, left) =>
        (word :: words, left)
    | none => none

def writeWords : List Text → List Text → Text → Text
  | word :: words, closing :: closings, left =>
    word ++ (closing ++ writeWords words closings left)
  | _, _, left => left

theorem readWords?_writeWords {p : Char → Bool} {words closings : List Text}
    (same : words.length = closings.length) (runs : ∀ word ∈ words, Run p word)
    (closed : ∀ closing ∈ closings, (closing.head?.any fun c => !p c) = true) (left : Text) :
    readWords? p closings (writeWords words closings left) = some (words, left) := by
  induction words generalizing closings with
  | nil =>
    obtain rfl := List.length_eq_zero_iff.mp same.symm
    rfl
  | cons word words ih =>
    cases closings with
    | nil => cases same
    | cons closing closings =>
      obtain ⟨run, laterRuns⟩ := List.forall_mem_cons.mp runs
      obtain ⟨stopped, laterClosed⟩ := List.forall_mem_cons.mp closed
      obtain ⟨c, first, stops⟩ : ∃ c, closing.head? = some c ∧ p c = false := by
        simpa [Option.any_eq_true] using stopped
      obtain ⟨rest, rfl⟩ := List.head?_eq_some_iff.mp first
      have ends : ∀ d ∈ (c :: rest ++ writeWords words closings left).head?, p d = false :=
        fun d here => Option.some.inj here ▸ stops
      have taken := takeRun?_eq_some_iff.mpr ⟨rfl, run, ends⟩
      have dropped : dropStart? (c :: rest) (c :: rest ++ writeWords words closings left) =
          some (writeWords words closings left) := dropStart?_eq_some_iff.mpr rfl
      simp only [readWords?, writeWords, taken, dropped, Option.bind_some,
        ih (Nat.succ.inj same) laterRuns laterClosed, Option.map_some]

theorem map_indentOf_zipWith {indents contents : List Text}
    (same : indents.length = contents.length)
    (blank : ∀ indent ∈ indents, ∀ c ∈ indent, isBlank c = true)
    (visible : ∀ content ∈ contents, ∀ c ∈ content.head?, isBlank c = false) :
    (List.zipWith (· ++ ·) indents contents).map indentOf = indents ∧
      (List.zipWith (· ++ ·) indents contents).map trimStart = contents := by
  induction indents generalizing contents with
  | nil =>
    obtain rfl := List.length_eq_zero_iff.mp same.symm
    exact ⟨rfl, rfl⟩
  | cons indent indents ih =>
    cases contents with
    | nil => cases same
    | cons content contents =>
      obtain ⟨gap, blank⟩ := List.forall_mem_cons.mp blank
      obtain ⟨first, visible⟩ := List.forall_mem_cons.mp visible
      obtain ⟨before, behind⟩ := ih (Nat.succ.inj same) blank visible
      simp only [List.zipWith_cons_cons, List.map_cons, indentOf_gap gap first,
        trimStart_gap gap first, before, behind, and_self]

/-- Each four spaces in a row are one tab, from left to right. -/
def tabbed : Text → Text
  | ' ' :: ' ' :: ' ' :: ' ' :: rest => '\t' :: tabbed rest
  | c :: rest => c :: tabbed rest
  | [] => []

theorem replaceAll_eq_tabbed (s : Text) : replaceAll "    ".toList ['\t'] s = tabbed s := by
  fun_induction tabbed s with
  | case1 rest ih => simpa [replaceAll, replaceFrom, startsWith, dropStart?] using ih
  | case2 c rest other ih =>
    have noRun : startsWith [' ', ' ', ' ', ' '] (c :: rest) = false := by
      rw [Bool.eq_false_iff]
      intro four
      obtain ⟨behind, split⟩ := startsWith_iff.mp four
      obtain ⟨rfl, later⟩ := List.cons.inj split
      exact other behind rfl later.symm
    simpa [replaceAll, replaceFrom, noRun] using ih
  | case3 => rfl

def isNameSign (c : Char) : Bool := isPlain c || c == '.' || c == '<' || c == '>'

theorem isTypeSign_of_isNameSign {c : Char} (sign : isNameSign c = true) : isTypeSign c = true := by
  simp only [isNameSign, Bool.or_eq_true] at sign
  rcases sign with ((plain | dot) | opened) | closed <;> simp [isTypeSign, *]

theorem ascii_of_isNameSign {c : Char} (sign : isNameSign c = true) : c.toNat < 128 :=
  ascii_of_isTypeSign (isTypeSign_of_isNameSign sign)

theorem isTypePart_of_isNameSign {c : Char} (sign : isNameSign c = true) : isTypePart c = true := by
  refine isTypePart_of_isTypeSign (isTypeSign_of_isNameSign sign) ?_
  rintro rfl
  contradiction

set_option maxRecDepth 4000 in
theorem isNameSign_toUpper {c : Char} (sign : isNameSign c = true) : isNameSign c.toUpper = true :=
  forall_ascii (P := fun c => isNameSign c = true → isNameSign c.toUpper = true) (by decide)
    (ascii_of_isNameSign sign) sign

set_option maxRecDepth 4000 in
theorem isNameSign_toLower {c : Char} (sign : isNameSign c = true) : isNameSign c.toLower = true :=
  forall_ascii (P := fun c => isNameSign c = true → isNameSign c.toLower = true) (by decide)
    (ascii_of_isNameSign sign) sign

theorem Run.typePart {word : Text} (run : Run isNameSign word) : Run isTypePart word :=
  ⟨run.1, fun c member => isTypePart_of_isNameSign (run.2 c member)⟩

theorem Run.modifyHead {p : Char → Bool} {word : Text} (run : Run p word) {change : Char → Char}
    (kept : ∀ c, p c = true → p (change c) = true) : Run p (word.modifyHead change) := by
  obtain ⟨c, rest, rfl⟩ := List.exists_cons_of_ne_nil run.1
  obtain ⟨first, later⟩ := List.forall_mem_cons.mp run.2
  exact ⟨List.cons_ne_nil _ _, List.forall_mem_cons.mpr ⟨kept c first, later⟩⟩

end Text

namespace Naming

open Text

theorem upperFirst_eq_modifyHead {name : Text} (named : Run isNameSign name) :
    upperFirst name = name.modifyHead Char.toUpper := by
  obtain ⟨c, rest, rfl⟩ := List.exists_cons_of_ne_nil named.1
  rw [upperFirst, toUpper_apply (ascii_of_isNameSign (named.2 c List.mem_cons_self))]
  rfl

theorem lowerFirst_eq_modifyHead {name : Text} (named : Run isNameSign name) :
    lowerFirst name = name.modifyHead Char.toLower := by
  obtain ⟨c, rest, rfl⟩ := List.exists_cons_of_ne_nil named.1
  rw [lowerFirst, toLower_apply (ascii_of_isNameSign (named.2 c List.mem_cons_self))]
  rfl

end Naming

def PropertyLayout.indents (indent : Text) : PropertyLayout → List Text
  | inline => [indent, indent]
  | block => [indent, indent, indent, indent ++ ['\t'], indent ++ ['\t'], indent]

namespace ExpandedProperty

open Text

structure Reading where
  indents : List Text
  modifier : Text
  typeNames : List Text
  publicName : Text
  fieldNames : List Text
  default : Text
deriving DecidableEq

def fieldClosings : List Text := [[' '], " = ".toList]

def readField? (line : Text) : Option (Text × Text × Text) :=
  match (dropStart? "private ".toList line).bind (readWords? isTypePart fieldClosings) with
  | some ([typeName, name], value) =>
    if value.getLast? = some ';' then some (typeName, name, value.dropLast) else none
  | _ => none

def propertyClosings : List Text :=
  [[' '], [' '], " \x7b get \x7b return ".toList, "; \x7d set \x7b ".toList,
    " = value; \x7d \x7d".toList]

/-- The lines behind that of the field are read as one, which they are but for the line ends. -/
def read? (text : Text) : Option Reading :=
  let lines := splitOn '\n' text
  match lines.map trimStart with
  | [] => none
  | field :: others =>
    match readField? field, readWords? isTypePart propertyClosings (joinWith ' ' others) with
    | some (fieldType, fieldName, value),
        some ([modifier, propertyType, publicName, returned, assigned], []) =>
      some
        { indents := lines.map indentOf
          modifier := modifier
          typeNames := [fieldType, propertyType]
          publicName := publicName
          fieldNames := [fieldName, returned, assigned]
          default := value }
    | _, _ => none

/-- The parts of the property can be told from the signs between them. -/
structure Legible (property : ExpandedProperty) : Prop where
  indent : ∀ c ∈ property.indent, isBlank c = true
  modifier : Run isTypePart property.modifier
  typeName : Run isTypePart property.typeName
  publicName : Run isTypePart property.publicName
  fieldName : Run isTypePart property.fieldName
  single : property.SingleLine

variable (property : ExpandedProperty)

def fieldContent : Text :=
  "private ".toList ++ writeWords [property.typeName, property.fieldName] fieldClosings
    (property.default ++ [';'])

def headContent : Text :=
  property.modifier ++ (' ' :: property.typeName ++ ' ' :: property.publicName)

def propertyContent : Text :=
  property.headContent ++ (" \x7b ".toList ++ (property.getter ++ ' ' :: (property.setter ++
    " \x7d".toList)))

def contents : PropertyLayout → List Text
  | .inline => [property.fieldContent, property.propertyContent]
  | .block =>
    [property.fieldContent, property.headContent, ['\x7b'], property.getter, property.setter,
      ['\x7d']]

def propertyWords : List Text :=
  [property.modifier, property.typeName, property.publicName, property.fieldName,
    property.fieldName]

theorem lines_eq_zipWith (layout : PropertyLayout) : property.lines layout =
    List.zipWith (· ++ ·) (layout.indents property.indent) (property.contents layout) := by
  have field : property.fieldLine = property.indent ++ property.fieldContent := by
    unfold fieldLine fieldContent fieldClosings
    generalize "private ".toList = keyword, " = ".toList = equals
    simp [writeWords]
  have head : property.headLine = property.indent ++ property.headContent := by
    simp [headLine, headContent]
  cases layout <;>
    simp only [lines, contents, propertyContent, PropertyLayout.indents, field, head,
      List.append_assoc, List.cons_append, List.nil_append, List.zipWith_cons_cons,
      List.zipWith_nil_right]

theorem exists_contents (layout : PropertyLayout) : ∃ others,
    property.contents layout = property.fieldContent :: others ∧
      joinWith ' ' others = property.propertyContent := by
  cases layout <;> exact ⟨_, rfl, rfl⟩

theorem propertyContent_eq_writeWords : property.propertyContent =
    writeWords property.propertyWords propertyClosings [] := by
  have opening : " \x7b get \x7b return ".toList =
      " \x7b ".toList ++ "get \x7b return ".toList := rfl
  have between : "; \x7d set \x7b ".toList = "; \x7d".toList ++ ' ' :: "set \x7b ".toList := rfl
  have ending : " = value; \x7d \x7d".toList = " = value; \x7d".toList ++ " \x7d".toList := rfl
  rw [propertyClosings, opening, between, ending]
  unfold propertyContent headContent getter setter
  generalize " \x7b ".toList = opened, "get \x7b return ".toList = returned,
    "; \x7d".toList = closed, "set \x7b ".toList = assigned, " = value; \x7d".toList = value,
    " \x7d".toList = last
  simp [propertyWords, writeWords]

variable {property}

theorem visible_of_mem_contents (legible : property.Legible) (layout : PropertyLayout) :
    ∀ content ∈ property.contents layout, ∀ c ∈ content.head?, isBlank c = false := by
  have starts {d : Char} (visible : isBlank d = false) (rest : Text) :
      ∀ c ∈ (d :: rest).head?, isBlank c = false :=
    fun c here => Option.some.inj here ▸ visible
  have head := Shorthand.visible_head_of_run legible.modifier
    (' ' :: property.typeName ++ ' ' :: property.publicName)
  have whole : ∀ c ∈ property.propertyContent.head?, isBlank c = false := by
    rw [propertyContent, headContent, List.append_assoc]
    exact Shorthand.visible_head_of_run legible.modifier _
  have field : ∀ c ∈ property.fieldContent.head?, isBlank c = false := starts (by decide) _
  cases layout with
  | inline => exact List.forall_mem_cons.mpr ⟨field, List.forall_mem_singleton.mpr whole⟩
  | block =>
    simp only [contents, List.forall_mem_cons, List.not_mem_nil, false_implies, implies_true,
      and_true]
    exact ⟨field, head, starts (by decide) _, starts (d := 'g') (by decide) _,
      starts (d := 's') (by decide) _, starts (by decide) _⟩

theorem readField?_fieldContent (legible : property.Legible) :
    readField? property.fieldContent =
      some (property.typeName, property.fieldName, property.default) := by
  have dropped : dropStart? "private ".toList property.fieldContent = some (writeWords
      [property.typeName, property.fieldName] fieldClosings (property.default ++ [';'])) :=
    dropStart?_eq_some_iff.mpr rfl
  have closed : ∀ closing ∈ fieldClosings, (closing.head?.any fun c => !isTypePart c) = true := by
    decide
  have runs : ∀ word ∈ [property.typeName, property.fieldName], Run isTypePart word :=
    List.forall_mem_cons.mpr ⟨legible.typeName, List.forall_mem_singleton.mpr legible.fieldName⟩
  have same : [property.typeName, property.fieldName].length = fieldClosings.length := rfl
  simp only [readField?, dropped, Option.bind_some, readWords?_writeWords same runs closed,
    List.getLast?_concat, if_true, List.dropLast_concat]

theorem readWords?_propertyContent (legible : property.Legible) :
    readWords? isTypePart propertyClosings property.propertyContent =
      some (property.propertyWords, []) := by
  have closed : ∀ closing ∈ propertyClosings,
      (closing.head?.any fun c => !isTypePart c) = true := by
    decide
  have runs : ∀ word ∈ property.propertyWords, Run isTypePart word := by
    simp [propertyWords, legible.modifier, legible.typeName, legible.publicName, legible.fieldName]
  have same : property.propertyWords.length = propertyClosings.length := rfl
  rw [propertyContent_eq_writeWords]
  exact readWords?_writeWords same runs closed []

theorem read?_render (legible : property.Legible) (layout : PropertyLayout) :
    read? (property.render layout) = some
      { indents := layout.indents property.indent
        modifier := property.modifier
        typeNames := [property.typeName, property.typeName]
        publicName := property.publicName
        fieldNames := List.replicate 3 property.fieldName
        default := property.default } := by
  have blank : ∀ indent ∈ layout.indents property.indent, ∀ c ∈ indent, isBlank c = true := by
    have further : ∀ c ∈ property.indent ++ ['\t'], isBlank c = true :=
      List.forall_mem_append.mpr ⟨legible.indent, List.forall_mem_singleton.mpr rfl⟩
    cases layout <;>
      simp only [PropertyLayout.indents, List.forall_mem_cons, List.not_mem_nil, false_implies,
        implies_true, and_true]
    · exact ⟨legible.indent, legible.indent⟩
    · exact ⟨legible.indent, legible.indent, legible.indent, further, further, legible.indent⟩
  have same : (layout.indents property.indent).length = (property.contents layout).length := by
    cases layout <;> rfl
  obtain ⟨indents, contents⟩ :=
    map_indentOf_zipWith same blank (visible_of_mem_contents legible layout)
  obtain ⟨others, starts, joined⟩ := property.exists_contents layout
  simp only [read?, splitOn_render legible.single, lines_eq_zipWith, indents, contents]
  simp only [starts, joined, readField?_fieldContent legible, readWords?_propertyContent legible]
  rfl

end ExpandedProperty

namespace Shorthand

open Text Naming

section Written

variable {indent modifier typeName name value trailing : Text}
  (blank : ∀ c ∈ indent, isBlank c = true ∧ c ≠ '\n') (modified : Run Char.isAlpha modifier)
  (typed : Run isNameSign typeName) (named : Run isNameSign name)

set_option maxRecDepth 4000 in
theorem isLetter_of_isAlpha {c : Char} (letter : c.isAlpha = true) : isLetter c = true := by
  have ascii : c.toNat < 128 := ascii_of_isAlphanum (by simp [Char.isAlphanum, letter])
  exact forall_ascii (P := fun c => c.isAlpha = true → isLetter c = true) (by decide) ascii letter

include blank modified typed named in
theorem legible_expand (single : '\n' ∉ value) :
    (expand ⟨modifier, typeName, name, value, tabbed indent⟩).Legible := by
  have publicName : Run isTypePart (upperFirst name) := by
    rw [upperFirst_eq_modifyHead named]
    exact (named.modifyHead fun _ => isNameSign_toUpper).typePart
  have fieldName : Run isTypePart (lowerFirst name) := by
    rw [lowerFirst_eq_modifyHead named]
    exact (named.modifyHead fun _ => isNameSign_toLower).typePart
  have modifier : Run isTypePart modifier := ⟨modified.1, fun c member =>
    isTypePart_of_isLetter (isLetter_of_isAlpha (modified.2 c member))⟩
  have gap : ∀ c ∈ tabbed indent, isBlank c = true ∧ c ≠ '\n' := by
    intro c member
    rw [← replaceAll_eq_tabbed] at member
    rcases mem_of_mem_replaceFrom member with tab | old
    · obtain rfl := List.mem_singleton.mp tab
      decide
    · exact blank c old
  have word {part : Text} (run : Run isTypePart part) : '\n' ∉ part :=
    newline_notMem_of_visible fun c member => visible_of_isTypePart (run.2 c member)
  refine ⟨fun c member => (gap c member).1, modifier, typed.typePart, publicName, fieldName, ?_⟩
  simp only [ExpandedProperty.SingleLine, List.forall_mem_cons, List.not_mem_nil, false_implies,
    implies_true, and_true]
  exact ⟨fun member => (gap _ member).2 rfl, word modifier, word typed.typePart, word publicName,
    word fieldName, single⟩

include blank modified typed named in
theorem expansion_reads_back (framed : Framed value) (single : '\n' ∉ value)
    (ended : ∀ c ∈ trailing, isBlank c = true) (layout : PropertyLayout) :
    ∃ emitted, expandLine? layout (indent ++ modifier ++ ' ' :: typeName ++ ' ' :: name ++
        " \x7b get; set; \x7d = ".toList ++ value ++ ';' :: trailing) = some emitted ∧
      ExpandedProperty.read? emitted = some
        { indents := layout.indents (tabbed indent)
          modifier := modifier
          typeNames := [typeName, typeName]
          publicName := name.modifyHead Char.toUpper
          fieldNames := List.replicate 3 (name.modifyHead Char.toLower)
          default := value } := by
  have line : indent ++ modifier ++ ' ' :: typeName ++ ' ' :: name ++
      " \x7b get; set; \x7d = ".toList ++ value ++ ';' :: trailing =
        indent ++ written modifier typeName name value ++ trailing := by
    have behind : " \x7b get; set; \x7d = ".toList =
        " \x7b get; set; \x7d".toList ++ " = ".toList := rfl
    rw [behind, written]
    generalize " \x7b get; set; \x7d".toList = accessors
    simp
  have letters : Run isLetter modifier :=
    ⟨modified.1, fun c member => isLetter_of_isAlpha (modified.2 c member)⟩
  have parsed := parse?_written letters typed.typePart named.typePart
    (fun c member => (blank c member).1) ended framed single
  refine ⟨_, by rw [line, expandLine?, parsed, Option.map_some], ?_⟩
  rw [replaceAll_eq_tabbed,
    ExpandedProperty.read?_render (legible_expand blank modified typed named single),
    ← upperFirst_eq_modifyHead named, ← lowerFirst_eq_modifyHead named]
  rfl

end Written

theorem dense_value_reads_back :
    let value := "=x; \x7b get; set; \x7d = \"a;\"; \x7d \x7d set \x7b =".toList
    ∃ emitted, expandLine? .block ("\t      Public Map<A.B> x_ \x7b get; set; \x7d = ".toList ++
        value ++ "; \r".toList) = some emitted ∧
      ExpandedProperty.read? emitted = some
        { indents := ["\t\t  ", "\t\t  ", "\t\t  ", "\t\t  \t", "\t\t  \t", "\t\t  "].map
            String.toList
          modifier := "Public".toList
          typeNames := ["Map<A.B>".toList, "Map<A.B>".toList]
          publicName := "X_".toList
          fieldNames := ["x_".toList, "x_".toList, "x_".toList]
          default := value } := by
  intro value
  have blank : ∀ c ∈ "\t      ".toList, isBlank c = true ∧ c ≠ '\n' := by
    intro c member
    obtain rfl | rfl : c = '\t' ∨ c = ' ' := by simpa using member
    · decide
    · decide
  have modified : Run Char.isAlpha "Public".toList := ⟨by decide, List.all_eq_true.mp rfl⟩
  have typed : Run isNameSign "Map<A.B>".toList := ⟨by decide, List.all_eq_true.mp rfl⟩
  have named : Run isNameSign "x_".toList := ⟨by decide, List.all_eq_true.mp rfl⟩
  have framed : Framed value := ⟨⟨'=', rfl, by decide⟩, '=', rfl, by decide, by decide⟩
  have single : '\n' ∉ value := by decide
  have ended : ∀ c ∈ " \r".toList, isBlank c = true := List.all_eq_true.mp rfl
  exact expansion_reads_back blank modified typed named framed single ended .block

end Shorthand

end SchemaClasses
