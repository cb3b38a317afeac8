import SchemaClasses.Proofs.Schema.Spelling
import SchemaClasses.Proofs.Source.AnnotationLines
import SchemaClasses.Proofs.Source.ClassRuns
import SchemaClasses.Proofs.Source.LineForms

set_option autoImplicit false

namespace SchemaClasses.Schema

open Annotation Scan Text

theorem mem_indent {depth : Nat} {c : Char} (member : c ∈ indent depth) : c = ' ' := by
  induction depth with
  | zero => contradiction
  | succ depth ih =>
    have blanks : ∀ d ∈ "    ".toList, d = ' ' := by simp
    rcases List.mem_append.mp member with here | later
    · exact blanks c here
    · exact ih later

theorem isBlank_of_mem_indent {depth : Nat} : ∀ c ∈ indent depth, isBlank c = true := by
  intro c member
  rw [mem_indent member]
  rfl

theorem newline_notMem_indent (depth : Nat) : '\n' ∉ indent depth := by
  intro member
  exact absurd (mem_indent member) (by decide)

theorem newline_notMem_descriptionLines {description line : Text}
    (member : line ∈ descriptionLines description) : '\n' ∉ line := by
  obtain ⟨piece, listed, rfl⟩ := List.mem_map.mp member
  have cut : piece ∈ splitOn '\n' description := by
    split at listed
    · exact List.dropLast_subset _ listed
    · exact listed
  exact fun inside => notMem_of_mem_splitOn cut ((trimEnd_isPrefix piece).subset inside)

theorem exists_slash_of_mem_summary {depth : Nat} {description? : Option Text} {line : Text}
    (member : line ∈ summary depth description?) :
    ∃ rest, line = indent depth ++ '/' :: rest ∧ '\n' ∉ rest := by
  cases description? with
  | none => contradiction
  | some description =>
    rw [summary, List.mem_append, List.mem_cons, List.mem_map, List.mem_singleton] at member
    rcases member with (rfl | ⟨text, listed, rfl⟩) | rfl
    · exact ⟨"// <summary>".toList, rfl, by decide⟩
    · refine ⟨"// ".toList ++ text, by simp, ?_⟩
      simp [newline_notMem_descriptionLines listed]
    · exact ⟨"// </summary>".toList, rfl, by decide⟩

theorem newline_notMem_summary {depth : Nat} {description? : Option Text} {line : Text}
    (member : line ∈ summary depth description?) : '\n' ∉ line := by
  obtain ⟨rest, rfl, single⟩ := exists_slash_of_mem_summary member
  simp [newline_notMem_indent, single]

theorem quiet_of_mem_summary {depth : Nat} {description? : Option Text} {line : Text}
    (member : line ∈ summary depth description?) : Quiet line := by
  obtain ⟨rest, rfl, -⟩ := exists_slash_of_mem_summary member
  exact LineKind.ofLine_eq_other isBlank_of_mem_indent (by decide) (by decide) (by decide) (by decide)

theorem quiet_nil : Quiet [] := LineKind.ofLine_nil

def Annotates (marker line : Text) : Prop :=
  ∃ depth rest, line = indent depth ++ '[' :: marker ++ rest ++ [']']

theorem Annotates.marked {marker line : Text} (annotates : Annotates marker line) :
    MarkedBy marker line := by
  obtain ⟨depth, rest, rfl⟩ := annotates
  exact ⟨indent depth, rest, dropReturn_concat (by decide) _⟩

theorem Annotates.exists_bracket {marker line : Text} (annotates : Annotates marker line) :
    ∃ depth rest, line = indent depth ++ '[' :: rest := by
  obtain ⟨depth, rest, rfl⟩ := annotates
  exact ⟨depth, marker ++ rest ++ [']'], by simp⟩

theorem Annotates.head?_trimStart {marker line : Text} (annotates : Annotates marker line) :
    (trimStart line).head? = some '[' := by
  obtain ⟨depth, rest, rfl⟩ := annotates.exists_bracket
  rw [trimStart_append isBlank_of_mem_indent, trimStart_cons (by decide)]
  rfl

theorem Annotates.quiet {marker line : Text} (annotates : Annotates marker line) : Quiet line := by
  obtain ⟨depth, rest, rfl⟩ := annotates.exists_bracket
  exact LineKind.ofLine_eq_other isBlank_of_mem_indent (by decide) (by decide) (by decide) (by decide)

theorem Initializer.newline_notMem_render {initializer : Initializer} (plain : initializer.Plain) :
    '\n' ∉ initializer.render := by
  cases initializer with
  | literal text => exact plain
  | construct className =>
    have name : '\n' ∉ className := Text.Plain.newline_notMem plain
    exact List.not_mem_append (List.not_mem_append (by simp) name) (by simp)
  | collection item =>
    have type := newline_notMem_of_visible (TypeName.visible_of_mem_render plain)
    exact List.not_mem_append (List.not_mem_append (by simp) type) (by simp)

namespace PropertyModel

variable {property : PropertyModel}

def afterAccessors (property : PropertyModel) : Text :=
  match property.initializer? with
  | some initializer => " = ".toList ++ initializer.render ++ [';']
  | none => []

theorem declaration_eq (property : PropertyModel) : property.declaration = indent 2 ++
    LineKind.declared property.type.render property.name property.afterAccessors := by
  unfold declaration afterAccessors accessors LineKind.declared
  cases property.initializer? <;> simp

theorem newline_notMem_afterAccessors
    (single : ∀ initializer, property.initializer? = some initializer → '\n' ∉ initializer.render) :
    '\n' ∉ property.afterAccessors := by
  unfold afterAccessors
  cases given : property.initializer? with
  | none => exact List.not_mem_nil
  | some initializer => simp [single initializer given]

theorem visible_getLast?_afterAccessors (property : PropertyModel) :
    ∀ c ∈ property.afterAccessors.getLast?, isBlank c = false := by
  intro c last
  unfold afterAccessors at last
  split at last
  · rw [List.getLast?_concat] at last
    obtain rfl := Option.some.inj last
    rfl
  · contradiction

theorem trim_declaration (property : PropertyModel) : trim property.declaration =
    LineKind.declared property.type.render property.name property.afterAccessors := by
  rw [property.declaration_eq]
  exact LineKind.trim_declared isBlank_of_mem_indent property.visible_getLast?_afterAccessors

theorem plain_name (plain : property.Plain) : Text.Plain property.name :=
  plain.name ▸ Naming.plain_pascalCase property.jsonName

theorem newline_notMem_afterAccessors_of_plain (plain : property.Plain) :
    '\n' ∉ property.afterAccessors :=
  newline_notMem_afterAccessors fun initializer given =>
    Initializer.newline_notMem_render (plain.initializer initializer given)

theorem newline_notMem_lines (plain : property.Plain) {line : Text}
    (member : line ∈ property.lines) : '\n' ∉ line := by
  rw [lines, List.mem_append, List.mem_pair] at member
  rcases member with described | rfl | rfl
  · exact newline_notMem_summary described
  · have handled : '\n' ∉ property.handling := by
      unfold handling
      split
      · simp
      · rw [String.toList_append]
        exact List.not_mem_append (by simp) (by simp)
    unfold annotationLine
    simp [newline_notMem_indent, newline_notMem_quote, handled]
  · have type := newline_notMem_of_visible (TypeName.visible_of_mem_render plain.type)
    have name := (plain_name plain).newline_notMem
    rw [declaration_eq]
    unfold LineKind.declared
    simp [newline_notMem_indent, type, name, newline_notMem_afterAccessors_of_plain plain]

/-- No name is missing, and the declaration does not read like the header of a class. -/
structure Readable (property : PropertyModel) : Prop where
  named : property.name ≠ []
  typed : property.type.render ≠ []
  noHeader : ¬ (sameAscii property.name "class".toList = true ∧
    sameAscii property.type.render "partial".toList = true)

instance (property : PropertyModel) : Decidable property.Readable :=
  decidable_of_iff (property.name ≠ [] ∧ property.type.render ≠ [] ∧
      ¬ (sameAscii property.name "class".toList = true ∧
        sameAscii property.type.render "partial".toList = true))
    ⟨fun ⟨named, typed, noHeader⟩ => ⟨named, typed, noHeader⟩,
      fun ⟨named, typed, noHeader⟩ => ⟨named, typed, noHeader⟩⟩

theorem sameAscii_of_foldCase {s t : Text} (signs : ∀ c ∈ s, isTypeSign c = true)
    (lower : t.map Char.toLower = t) (folded : s.map foldCase = t) : sameAscii s t = true := by
  rw [sameAscii, beq_iff_eq, lower, ← folded]
  exact List.map_congr_left fun c member => (foldCase_of_isTypeSign (signs c member)).symm

theorem ofLine_declaration (plain : property.Plain) (readable : property.Readable) :
    LineKind.ofLine property.declaration = .member property.name .property := by
  have signs : ∀ c ∈ property.name, isTypeSign c = true := fun c member =>
    isTypeSign_of_isPlain (plain_name plain c member)
  have start : ∀ c ∈ property.name.head?, isWordStart c = true :=
    plain.name ▸ Naming.isWordStart_pascalCase property.jsonName
  rw [declaration_eq]
  refine LineKind.ofLine_declared isBlank_of_mem_indent readable.typed
    (TypeName.visible_of_mem_render plain.type) start readable.named (plain_name plain) ?_
    (newline_notMem_afterAccessors_of_plain plain) property.visible_getLast?_afterAccessors
  rintro ⟨type, name⟩
  exact readable.noHeader ⟨sameAscii_of_foldCase signs (by decide) name,
    sameAscii_of_foldCase (TypeName.isTypeSign_of_mem_render plain.type) (by decide) type⟩

theorem annotates_annotationLine (property : PropertyModel) :
    Annotates "Newtonsoft".toList property.annotationLine :=
  ⟨2, ".Json.JsonProperty(".toList ++ quote property.jsonName ++ ", ".toList ++ property.handling
    ++ [')'], by unfold annotationLine; simp⟩

theorem not_marked_declaration (markers : List Text) (property : PropertyModel) :
    ¬ Marked markers property.declaration := by
  -- An annotation ends in a bracket, a declaration in a semicolon or a brace.
  unfold declaration
  split
  · exact not_marked_of_last (by decide) (by decide)
  · have form : property.accessors = (indent 2 ++ "public ".toList ++ property.type.render
        ++ ' ' :: property.name ++ " \x7b get; set; ".toList) ++ ['\x7d'] := by
      unfold accessors
      simp
    rw [form]
    exact not_marked_of_last (by decide) (by decide)

theorem exists_quiet_unmarked_lines (markers : List Text) (property : PropertyModel) :
    ∃ quiet, unmarked markers property.lines = quiet ++ [property.declaration] ∧
      ∀ line ∈ quiet, Quiet line := by
  have form : property.lines =
      (summary 2 property.description? ++ [property.annotationLine]) ++ [property.declaration] := by
    simp [lines]
  refine ⟨unmarked markers (summary 2 property.description? ++ [property.annotationLine]),
    ?_, fun line member => ?_⟩
  · rw [form, unmarked, List.filter_append]
    simp [unmarked, not_marked_declaration]
  · rcases List.mem_append.mp (List.mem_filter.mp member).1 with described | annotation
    · exact quiet_of_mem_summary described
    · exact List.mem_singleton.mp annotation ▸ property.annotates_annotationLine.quiet

theorem declaredNames_unmarked_lines (markers : List Text) (plain : property.Plain)
    (readable : property.Readable) :
    declaredNames (unmarked markers property.lines) = [property.name] := by
  obtain ⟨quiet, form, silent⟩ := exists_quiet_unmarked_lines markers property
  rw [form, declaredNames_append, declaredNames_of_quiet silent]
  simp [declaredNames, memberName?, SourceLine.kind, ofLine_declaration plain readable]

theorem flat_of_mem_lines (plain : property.Plain) (readable : property.Readable) {line : Text}
    (member : line ∈ property.lines) : Flat line := by
  rw [lines, List.mem_append, List.mem_pair] at member
  rcases member with described | rfl | rfl
  · exact .inl (quiet_of_mem_summary described)
  · exact .inl property.annotates_annotationLine.quiet
  · exact .inr ⟨_, _, ofLine_declaration plain readable⟩

theorem mem_allLines {properties : List PropertyModel} {line : Text}
    (member : line ∈ allLines properties) :
    line = [] ∨ ∃ property ∈ properties, line ∈ property.lines := by
  fun_induction allLines properties with
  | case1 => contradiction
  | case2 property => exact .inr ⟨property, List.mem_cons_self, member⟩
  | case3 property next rest ih =>
    rcases List.mem_append.mp member with here | later
    · exact .inr ⟨property, List.mem_cons_self, here⟩
    · rcases List.mem_cons.mp later with empty | deeper
      · exact .inl empty
      · rcases ih deeper with empty | ⟨other, listed, inside⟩
        · exact .inl empty
        · exact .inr ⟨other, List.mem_cons_of_mem _ listed, inside⟩

theorem declaredNames_unmarked_allLines (markers : List Text) {properties : List PropertyModel}
    (plain : ∀ property ∈ properties, property.Plain)
    (readable : ∀ property ∈ properties, property.Readable) :
    declaredNames (unmarked markers (allLines properties)) =
      properties.map PropertyModel.name := by
  fun_induction allLines properties with
  | case1 => rfl
  | case2 property =>
    exact declaredNames_unmarked_lines markers (plain property List.mem_cons_self)
      (readable property List.mem_cons_self)
  | case3 property next rest ih =>
    have first := declaredNames_unmarked_lines markers (plain property List.mem_cons_self)
      (readable property List.mem_cons_self)
    have later := ih (fun other member => plain other (List.mem_cons_of_mem _ member))
      fun other member => readable other (List.mem_cons_of_mem _ member)
    have empty : declaredNames [[]] = [] := declaredNames_of_quiet (by simpa using quiet_nil)
    rw [unmarked_append, unmarked_cons (not_marked_empty markers),
      ← List.singleton_append, declaredNames_append, declaredNames_append, first, empty, later]
    rfl

end PropertyModel

namespace ClassModel

variable {model : ClassModel}

structure Readable (model : ClassModel) : Prop where
  named : model.name ≠ []
  properties : ∀ property ∈ model.properties, property.Readable

instance (model : ClassModel) : Decidable model.Readable :=
  decidable_of_iff (model.name ≠ [] ∧ ∀ property ∈ model.properties, property.Readable)
    ⟨fun ⟨named, properties⟩ => ⟨named, properties⟩, fun ⟨named, properties⟩ => ⟨named, properties⟩⟩

def header (model : ClassModel) : Text :=
  indent 1 ++ ("public partial class".toList ++ ' ' :: model.name)

theorem header_eq (model : ClassModel) :
    indent 1 ++ "public partial class ".toList ++ model.name = model.header := by
  simp [header]

theorem lines_eq (model : ClassModel) : model.lines =
    ([] :: summary 1 model.description? ++ [annotationLine]) ++
      model.header :: (indent 1 ++ ['\x7b']) ::
        (PropertyModel.allLines model.properties ++ [indent 1 ++ ['\x7d']]) := by
  rw [lines, header_eq]
  simp

theorem annotates_annotationLine : Annotates "System".toList annotationLine :=
  ⟨1, ".CodeDom.Compiler.GeneratedCode(".toList ++ quote generatorName ++ ", ".toList
    ++ quote generatorVersion ++ [')'], by unfold annotationLine; simp⟩

theorem not_marked_header (markers : List Text) (plain : model.Plain) (readable : model.Readable) :
    ¬ Marked markers model.header := by
  obtain ⟨before, last, form⟩ :=
    (List.eq_nil_or_concat model.name).resolve_left readable.named
  rw [List.concat_eq_append] at form
  have sign : isPlain last = true := plain.name last (by simp [form])
  rw [header, form, ← List.cons_append, ← List.append_assoc, ← List.append_assoc]
  refine not_marked_of_last ?_ ?_ <;>
  · rintro rfl
    exact absurd sign (by decide)

theorem exists_quiet_unmarked_lines (markers : List Text) (plain : model.Plain)
    (readable : model.Readable) : ∃ quiet, unmarked markers model.lines =
      quiet ++ model.header :: (indent 1 ++ ['\x7b']) ::
        (unmarked markers (PropertyModel.allLines model.properties) ++
          [indent 1 ++ ['\x7d']]) ∧ ∀ line ∈ quiet, Quiet line := by
  have opening : ¬ Marked markers (indent 1 ++ ['\x7b']) :=
    not_marked_of_last (by decide) (by decide)
  have closing : ¬ Marked markers (indent 1 ++ ['\x7d']) :=
    not_marked_of_last (by decide) (by decide)
  refine ⟨unmarked markers ([] :: summary 1 model.description? ++ [annotationLine]), ?_,
    fun line member => ?_⟩
  · rw [lines_eq,
      unmarked_append markers ([] :: summary 1 model.description? ++ [annotationLine]),
      unmarked_cons (not_marked_header markers plain readable),
      unmarked_cons opening,
      unmarked_append markers (PropertyModel.allLines model.properties),
      unmarked_cons closing]
    rfl
  · rcases List.mem_append.mp (mem_unmarked.mp member).1 with before | annotation
    · rcases List.mem_cons.mp before with rfl | described
      · exact quiet_nil
      · exact quiet_of_mem_summary described
    · exact List.mem_singleton.mp annotation ▸ annotates_annotationLine.quiet

theorem ofLine_header (plain : model.Plain) (readable : model.Readable) :
    LineKind.ofLine model.header = .classHeader model.name :=
  LineKind.ofLine_header isBlank_of_mem_indent
    (fun c member => visible_of_isPlain (plain.name c member)) readable.named

theorem exists_resume_lines (markers : List Text) (plain : model.Plain) (readable : model.Readable)
    (first : Nat) (rest : List Text) : ∃ line next,
      resume .outside (SourceLine.numbered first (unmarked markers model.lines ++ rest)) =
        append ⟨[⟨model.name, model.properties.map PropertyModel.name, line⟩], []⟩
          (resume .outside (SourceLine.numbered next rest)) := by
  obtain ⟨quiet, form, silent⟩ := exists_quiet_unmarked_lines markers plain readable
  -- Removing lines of the body takes none of its declarations and adds no brace.
  have flat : ∀ line ∈ unmarked markers (PropertyModel.allLines model.properties),
      Flat line := by
    intro line member
    rcases PropertyModel.mem_allLines (mem_unmarked.mp member).1 with
      rfl | ⟨property, listed, inside⟩
    · exact .inl quiet_nil
    · exact PropertyModel.flat_of_mem_lines (plain.properties property listed)
        (readable.properties property listed) inside
  have names := PropertyModel.declaredNames_unmarked_allLines markers plain.properties
    readable.properties
  have opens : LineKind.ofLine (indent 1 ++ ['\x7b']) = .openBrace := by decide
  have closes : LineKind.ofLine (indent 1 ++ ['\x7d']) = .closeBrace := by decide
  refine ⟨first + quiet.length, first + quiet.length + 2 +
    (unmarked markers (PropertyModel.allLines model.properties)).length + 1, ?_⟩
  rw [form, List.append_assoc, resume_headless fun text member => (silent text member).headless,
    List.cons_append, List.cons_append, List.append_assoc, List.singleton_append,
    resume_class (ofLine_header plain readable) opens closes flat, names]

theorem newline_notMem_lines (plain : model.Plain) {line : Text} (member : line ∈ model.lines) :
    '\n' ∉ line := by
  rw [lines, List.mem_append, List.mem_append, List.mem_append] at member
  rcases member with ((before | declaration) | inner) | closing
  · rcases List.mem_cons.mp before with rfl | described
    · exact List.not_mem_nil
    · exact newline_notMem_summary described
  · rw [List.mem_cons, List.mem_pair] at declaration
    rcases declaration with rfl | rfl | rfl
    · unfold annotationLine
      simp [newline_notMem_indent, newline_notMem_quote]
    · simp [newline_notMem_indent, plain.name.newline_notMem]
    · decide
  · rcases PropertyModel.mem_allLines inner with rfl | ⟨property, listed, within⟩
    · exact List.not_mem_nil
    · exact PropertyModel.newline_notMem_lines (plain.properties property listed) within
  · rw [List.mem_singleton.mp closing]
    decide

end ClassModel

theorem mem_headerLines {namespaceName line : Text} (member : line ∈ headerLines namespaceName) :
    line = "namespace ".toList ++ namespaceName ∨ line ∈ headerLines [] := by
  have around : headerLines namespaceName = (headerLines []).take 6 ++
      ("namespace ".toList ++ namespaceName) :: (headerLines []).drop 7 := rfl
  rw [around, List.mem_append, List.mem_cons] at member
  rcases member with before | named | behind
  · exact .inr (List.mem_of_mem_take before)
  · exact .inl named
  · exact .inr (List.mem_of_mem_drop behind)

theorem newline_notMem_sourceLines {namespaceName : Text} (single : '\n' ∉ namespaceName)
    {models : List ClassModel} (plain : ∀ model ∈ models, model.Plain) {line : Text}
    (member : line ∈ sourceLines namespaceName models) : '\n' ∉ line := by
  have fixed : ∀ other ∈ headerLines [], '\n' ∉ other := by
    unfold headerLines generatorName generatorVersion
    simp [newline_notMem_indent]
  have ends : ∀ other ∈ [['\x7d'], []], '\n' ∉ other := by decide
  rw [sourceLines, List.mem_append, List.mem_append] at member
  rcases member with (front | inner) | back
  · rcases mem_headerLines front with rfl | other
    · exact List.not_mem_append (by decide) single
    · exact fixed line other
  · obtain ⟨model, listed, within⟩ := List.mem_flatMap.mp inner
    exact ClassModel.newline_notMem_lines (plain model listed) within
  · exact ends line back

theorem headless_of_mem_headerLines {namespaceName line : Text}
    (member : line ∈ headerLines namespaceName) (name : Text) :
    LineKind.ofLine line ≠ .classHeader name := by
  have fixed : ∀ other ∈ headerLines [],
      LineKind.ofLine other = .other ∨ LineKind.ofLine other = .openBrace := by decide +kernel
  rcases mem_headerLines member with rfl | other
  · have blank : ∀ c ∈ ([] : Text), isBlank c = true := nofun
    have quiet : Quiet ([] ++ 'n' :: ("amespace ".toList ++ namespaceName)) :=
      LineKind.ofLine_eq_other blank (by decide) (by decide) (by decide) (by decide)
    exact quiet.headless name
  · rcases fixed line other with kind | kind <;> simp [kind]

theorem exists_resume_models (markers : List Text) {models : List ClassModel}
    (plain : ∀ model ∈ models, model.Plain) (readable : ∀ model ∈ models, model.Readable)
    (first : Nat) (rest : List Text) : ∃ blocks next,
      resume .outside (SourceLine.numbered first
        (unmarked markers (models.flatMap ClassModel.lines) ++ rest)) =
          append ⟨blocks, []⟩ (resume .outside (SourceLine.numbered next rest)) ∧
      blocks.map (fun block => (block.name, block.properties)) =
        models.map fun model => (model.name, model.properties.map PropertyModel.name) := by
  induction models generalizing first with
  | nil => exact ⟨[], first, rfl, rfl⟩
  | cons model models ih =>
    obtain ⟨plainModel, plainOthers⟩ := List.forall_mem_cons.mp plain
    obtain ⟨readableModel, readableOthers⟩ := List.forall_mem_cons.mp readable
    obtain ⟨line, second, here⟩ := ClassModel.exists_resume_lines markers plainModel readableModel first
      (unmarked markers (models.flatMap ClassModel.lines) ++ rest)
    obtain ⟨blocks, next, later, same⟩ := ih plainOthers readableOthers second
    refine ⟨⟨model.name, model.properties.map PropertyModel.name, line⟩ :: blocks, next, ?_, ?_⟩
    · rw [List.flatMap_cons, unmarked_append, List.append_assoc, here, later, ← append_assoc]
      rfl
    · rw [List.map_cons, List.map_cons, same]

theorem ofLines_sourceLines (markers : List Text) (namespaceName : Text) {models : List ClassModel}
    (plain : ∀ model ∈ models, model.Plain) (readable : ∀ model ∈ models, model.Readable) :
    let scan := Scan.ofLines (SourceLine.numbered 1
      (remaining markers (sourceLines namespaceName models)))
    scan.classes.map (fun block => (block.name, block.properties)) =
        models.map (fun model => (model.name, model.properties.map PropertyModel.name)) ∧
      scan.diagnostics = [] := by
  intro scan
  have closing : ¬ Marked markers ([] ++ ['\x7d']) :=
    not_marked_of_last (by decide) (by decide)
  have lines : remaining markers (sourceLines namespaceName models) =
      unmarked markers (headerLines namespaceName) ++
        (unmarked markers (models.flatMap ClassModel.lines) ++ [['\x7d'], []]) := by
    have split : sourceLines namespaceName models =
        (headerLines namespaceName ++ (models.flatMap ClassModel.lines ++ [['\x7d']])) ++ [[]] := by
      simp [sourceLines]
    rw [split, remaining_concat, unmarked_append, unmarked_append,
      ← List.nil_append ['\x7d'], unmarked_cons closing]
    simp [unmarked]
  have headless : ∀ text ∈ unmarked markers (headerLines namespaceName),
      ∀ name, LineKind.ofLine text ≠ .classHeader name := fun text member =>
    headless_of_mem_headerLines (mem_unmarked.mp member).1
  have tail (first : Nat) : resume .outside (SourceLine.numbered first [['\x7d'], []]) = ⟨[], []⟩ := by
    have kinds : ∀ text ∈ [['\x7d'], []],
        LineKind.ofLine text = .closeBrace ∨ LineKind.ofLine text = .other := by decide
    have ends : ∀ text ∈ [['\x7d'], []], ∀ name, LineKind.ofLine text ≠ .classHeader name := by
      intro text member name
      rcases kinds text member with kind | kind <;> simp [kind]
    exact resume_headless ends first []
  obtain ⟨blocks, next, found, same⟩ := exists_resume_models markers plain readable
    (1 + (unmarked markers (headerLines namespaceName)).length) [['\x7d'], []]
  have whole : scan = append ⟨blocks, []⟩ ⟨[], []⟩ := by
    change resume .outside _ = _
    rw [lines, resume_headless headless, found, tail]
  rw [whole]
  exact ⟨by simpa [append] using same, rfl⟩

end SchemaClasses.Schema
