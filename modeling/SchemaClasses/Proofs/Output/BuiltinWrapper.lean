import SchemaClasses.Proofs.Output.Guarded
import SchemaClasses.Proofs.Text.Plain

set_option autoImplicit false

namespace SchemaClasses

namespace Template

open SchemaClasses.Part

/-- What the signs of identifiers have in common in every alphabet, and the dot between two of them. -/
def Nameable (s : Text) : Prop := ∀ c ∈ s, Text.isBlank c = false ∧ c ≠ '\x7b'

theorem Nameable.of_signs {s : Text} (signs : s.all Text.isTypeSign = true) : Nameable s := by
  intro c member
  have sign : Text.isTypeSign c = true := List.all_eq_true.mp signs c member
  refine ⟨Text.visible_of_isTypeSign sign, ?_⟩
  rintro rfl
  exact absurd sign (by decide)

theorem Nameable.newline_notMem {s : Text} (nameable : Nameable s) : '\n' ∉ s := fun member =>
  absurd (nameable '\n' member).1 (by decide)

theorem Nameable.brace_notMem {s : Text} (nameable : Nameable s) : '\x7b' ∉ s := fun member =>
  (nameable '\x7b' member).2 rfl

structure NameableClass (namespaceName : Text) (block : ClassBlock) : Prop where
  qualified : Nameable namespaceName
  named : Nameable block.name
  members : ∀ property ∈ block.properties, Nameable property

def lineOf (namespaceName : Text) (block : ClassBlock) (line : String) : Text :=
  write (values namespaceName block) (cut line.toList)

def namespaceLine : String := "namespace \x7b\x7bnamespace\x7d\x7d"

def classLine : String := "    public partial class \x7b\x7bclass_name\x7d\x7d"

def propertiesLine : String := "\x7b\x7bproperties\x7d\x7d"

def opening : String := "                \x7b"

def closing : String := "                \x7d;"

def namespaceWord : Text := "namespace ".toList

def classWord : Text := "    public partial class ".toList

def isSingle (line : String) : Bool :=
  (cut line.toList).all fun part => part != sign '\n' && part != hole .properties

def linesBefore : List String := builtinLines.take 25

def linesAfter : List String := builtinLines.drop 28

theorem builtinLines_eq :
    builtinLines = (linesBefore ++ [opening]) ++ propertiesLine :: (closing :: linesAfter) := rfl

theorem linesBefore_eq :
    linesBefore = linesBefore.take 13 ++ namespaceLine :: linesBefore.drop 14 ∧
    linesBefore = linesBefore.take 18 ++ classLine :: linesBefore.drop 19 := ⟨rfl, rfl⟩

/-- The built-in template by inspection: its braces stand apart, only one of its lines takes several lines,
and the lines that the class is read from are the first ones that look like it. -/
theorem builtin_inspected :
    (∀ line ∈ builtinLines, guarded (cut line.toList) = true) ∧
    (∀ line ∈ linesBefore ++ opening :: closing :: linesAfter, isSingle line = true) ∧
    (∀ line ∈ linesBefore, differs opening.toList (cut line.toList) = true) ∧
    (∀ line ∈ linesBefore.take 13, differs namespaceWord (cut line.toList) = true) ∧
    (∀ line ∈ linesBefore.take 18, differs classWord (cut line.toList) = true) ∧
    cut namespaceLine.toList = namespaceWord.map sign ++ [hole .namespaceName] ∧
    cut classLine.toList = classWord.map sign ++ [hole .className] ∧
    cut opening.toList = opening.toList.map sign ∧ cut closing.toList = closing.toList.map sign ∧
    cut propertiesLine.toList = [hole .properties] := by
  -- All at once, because the characters of the lines take more time than what is asked of them.
  decide +kernel

theorem guarded_builtin : guarded (cut builtin.text) = true :=
  guarded_cut_joinWith fun line member => by
    obtain ⟨source, listed, rfl⟩ := List.mem_map.mp member
    exact builtin_inspected.1 source listed

def assigned (property : Text) : Text :=
  List.replicate 5 '\t' ++ property ++ [' ', '=', ' '] ++ property ++ [',']

theorem assignment_eq (property : Text) : assignment property = assigned property ++ ['\n'] := by
  have indent : "\t\t\t\t\t".toList = List.replicate 5 '\t' := by decide
  have equals : " = ".toList = [' ', '=', ' '] := by decide
  have ending : ",\n".toList = [',', '\n'] := by decide
  unfold assignment assigned
  rw [indent, equals, ending, List.append_assoc _ [','] ['\n']]
  rfl

theorem mem_assigned {c : Char} {property : Text} (inside : c ∈ assigned property) :
    c ∈ ['\t', ' ', '=', ','] ∨ c ∈ property := by
  simp only [assigned, List.mem_append, List.mem_replicate, List.mem_cons] at inside ⊢
  grind

variable {namespaceName : Text} {block : ClassBlock}

theorem brace_notMem_assignments {properties : List Text}
    (members : ∀ property ∈ properties, Nameable property) :
    '\x7b' ∉ properties.flatMap assignment := by
  intro inside
  obtain ⟨property, listed, within⟩ := List.mem_flatMap.mp inside
  rw [assignment_eq, List.mem_append] at within
  rcases within with within | ending
  · rcases mem_assigned within with signs | name
    · exact absurd signs (by decide)
    · exact (members property listed).brace_notMem name
  · exact absurd ending (by decide)

theorem placeholders_absent {template : Template} (guards : guarded (cut template.text) = true)
    (nameable : NameableClass namespaceName block) (p : Placeholder) :
    Text.contains p.text (template.substitute namespaceName block) = false := by
  have spaced := guarded_inserted .className nameable.named.brace_notMem
    (guarded_inserted .namespaceName nameable.qualified.brace_notMem guards)
  have whole := guarded_inserted .properties (brace_notMem_assignments nameable.members) spaced
  rw [← Text.occurrences_eq_zero_iff p.text_ne_nil, ← write_named, occurrences_source,
    Template.named, accidents_of_guarded p whole, Nat.add_zero]
  cases p with
  | properties => exact count_inserted_self _ _ _
  | className =>
    rw [count_inserted (by decide)]
    exact count_inserted_self _ _ _
  | namespaceName =>
    rw [count_inserted (by decide), count_inserted (by decide)]
    exact count_inserted_self _ _ _

theorem substitute_builtin (namespaceName : Text) (block : ClassBlock) :
    builtin.substitute namespaceName block =
      Text.joinWith '\n' (builtinLines.map (lineOf namespaceName block)) := by
  rw [substitute, builtin, write_cut_joinWith, List.map_map]
  rfl

theorem newline_notMem_lineOf (nameable : NameableClass namespaceName block) {line : String}
    (single : isSingle line = true) : '\n' ∉ lineOf namespaceName block line := by
  intro inside
  obtain ⟨part, listed, within⟩ := List.mem_flatMap.mp inside
  have plain := List.all_eq_true.mp single part listed
  rcases part with c | _ | _ | _
  · obtain rfl := List.mem_singleton.mp within
    exact absurd plain (by decide)
  · exact nameable.qualified.newline_notMem within
  · exact nameable.named.newline_notMem within
  · exact absurd plain (by decide)

theorem splitOn_assignments {properties : List Text}
    (members : ∀ property ∈ properties, Nameable property) :
    Text.splitOn '\n' (properties.flatMap assignment) = properties.map assigned ++ [[]] := by
  induction properties with
  | nil => rfl
  | cons property rest ih =>
    obtain ⟨first, later⟩ := List.forall_mem_cons.mp members
    have single : '\n' ∉ assigned property := fun inside =>
      (mem_assigned inside).elim (by decide) first.newline_notMem
    rw [List.flatMap_cons, assignment_eq, List.append_assoc, List.singleton_append,
      Text.splitOn_append_sep single, ih later]
    rfl

theorem flatMap_splitOn_of_single {lines : List Text} (single : ∀ line ∈ lines, '\n' ∉ line) :
    lines.flatMap (Text.splitOn '\n') = lines := by
  rw [List.flatMap_congr fun line member => Text.splitOn_of_notMem (single line member),
    List.flatMap_singleton']

theorem splitOn_builtin (nameable : NameableClass namespaceName block) :
    Text.splitOn '\n' (builtin.substitute namespaceName block) =
      linesBefore.map (lineOf namespaceName block) ++ opening.toList ::
        (block.properties.map assigned ++ [[]] ++ closing.toList ::
          linesAfter.map (lineOf namespaceName block)) := by
  obtain ⟨-, singles, -, -, -, -, -, opens, closes, filled⟩ := builtin_inspected
  have single {lines : List String} (within : lines ⊆ linesBefore ++ opening :: closing :: linesAfter) :
      (lines.map (lineOf namespaceName block)).flatMap (Text.splitOn '\n') =
        lines.map (lineOf namespaceName block) := by
    refine flatMap_splitOn_of_single fun line member => ?_
    obtain ⟨source, listed, rfl⟩ := List.mem_map.mp member
    exact newline_notMem_lineOf nameable (singles source (within listed))
  have before := @single (linesBefore ++ [opening]) (by simp)
  have after := @single (closing :: linesAfter) (by simp)
  have openLine : lineOf namespaceName block opening = opening.toList := by
    rw [lineOf, opens, write_signs]
  have closeLine : lineOf namespaceName block closing = closing.toList := by
    rw [lineOf, closes, write_signs]
  have middle : lineOf namespaceName block propertiesLine = block.properties.flatMap assignment := by
    rw [lineOf, filled]
    exact List.append_nil _
  have nonempty : builtinLines.map (lineOf namespaceName block) ≠ [] := List.cons_ne_nil _ _
  rw [substitute_builtin, Text.splitOn_joinWith_flatMap '\n' nonempty, builtinLines_eq, List.map_append,
    List.map_cons, List.flatMap_append, List.flatMap_cons, before, after, middle,
    splitOn_assignments nameable.members, List.map_append, List.map_cons, List.map_cons, openLine, closeLine]
  simp only [List.map_nil, List.append_assoc, List.singleton_append]

def lineBehind? (word : Text) (lines : List Text) : Option Text :=
  lines.findSome? (Text.dropStart? word)

theorem lineBehind?_of_first {word : Text} {before : List String} {line : String} {p : Placeholder}
    (others : ∀ line ∈ before, differs word (Part.cut line.toList) = true)
    (found : Part.cut line.toList = word.map sign ++ [hole p]) (after : List Text) :
    lineBehind? word (before.map (lineOf namespaceName block) ++ lineOf namespaceName block line :: after) =
      some (values namespaceName block p) := by
  have none : (before.map (lineOf namespaceName block)).findSome? (Text.dropStart? word) = none := by
    refine List.findSome?_eq_none_iff.mpr fun line member => ?_
    obtain ⟨source, listed, rfl⟩ := List.mem_map.mp member
    by_contra some
    obtain ⟨rest, starts⟩ := Option.ne_none_iff_exists'.mp some
    exact not_prefix_of_differs (others source listed)
      ⟨rest, (Text.dropStart?_eq_some_iff.mp starts).symm⟩
  have here : Text.dropStart? word (lineOf namespaceName block line) =
      some (values namespaceName block p) := by
    rw [Text.dropStart?_eq_some_iff, lineOf, found, write_append, write_signs]
    exact congrArg (word ++ ·) (List.append_nil _)
  rw [lineBehind?, List.findSome?_append, none, List.findSome?_cons, here]
  rfl

def initializer (lines : List Text) : List Text :=
  ((lines.dropWhile (· ≠ opening.toList)).drop 1).takeWhile (· ≠ closing.toList)

theorem initializer_builtin (nameable : NameableClass namespaceName block) :
    initializer (Text.splitOn '\n' (builtin.substitute namespaceName block)) =
      block.properties.map assigned ++ [[]] := by
  obtain ⟨-, -, others, -⟩ := builtin_inspected
  have passed : ∀ line ∈ linesBefore.map (lineOf namespaceName block),
      decide (line ≠ opening.toList) = true := by
    intro line member
    obtain ⟨source, listed, rfl⟩ := List.mem_map.mp member
    have other : ¬ opening.toList <+: lineOf namespaceName block source :=
      not_prefix_of_differs (others source listed)
    exact decide_eq_true fun same => other (by rw [same])
  have inside : ∀ line ∈ block.properties.map assigned ++ [[]],
      decide (line ≠ closing.toList) = true := by
    intro line member
    rcases List.mem_append.mp member with assignment | last
    · obtain ⟨property, -, rfl⟩ := List.mem_map.mp assignment
      have tab : (assigned property).head? = some '\t' := rfl
      refine decide_eq_true fun same => ?_
      rw [same] at tab
      exact absurd tab (by decide)
    · exact List.mem_singleton.mp last ▸ by decide
  rw [initializer, splitOn_builtin nameable, List.dropWhile_append_of_pos passed,
    List.dropWhile_cons_of_neg (by simp), List.drop_one, List.tail_cons,
    List.takeWhile_append_of_pos inside, List.takeWhile_cons_of_neg (by simp), List.append_nil]

def propertyOf (line : Text) : Text := (line.drop 5).takeWhile (· ≠ ' ')

/-- Namespace, class name and properties, read from the lines of a wrapper. -/
def read? (text : Text) : Option (Text × Text × List Text) :=
  let lines := Text.splitOn '\n' text
  match lineBehind? namespaceWord lines, lineBehind? classWord lines with
  | some namespaceName, some name =>
    some (namespaceName, name, (initializer lines).dropLast.map propertyOf)
  | _, _ => none

theorem propertyOf_assigned {property : Text} (nameable : Nameable property) :
    propertyOf (assigned property) = property := by
  have visible : ∀ c ∈ property, decide (c ≠ ' ') = true := fun c member =>
    decide_eq_true fun same => absurd (nameable c member).1 (same ▸ by decide)
  have behind : (assigned property).drop 5 = property ++ ' ' :: ('=' :: ' ' :: property ++ [',']) := by
    simp [assigned, List.replicate]
  rw [propertyOf, behind, List.takeWhile_append_of_pos visible, List.takeWhile_cons_of_neg (by decide),
    List.append_nil]

theorem read?_builtin (nameable : NameableClass namespaceName block) :
    read? (builtin.substitute namespaceName block) = some (namespaceName, block.name, block.properties) := by
  obtain ⟨-, -, -, firstNamespace, firstClass, namespaceParts, classParts, -⟩ := builtin_inspected
  have lines := splitOn_builtin nameable
  have namespaceFound : lineBehind? namespaceWord
      (Text.splitOn '\n' (builtin.substitute namespaceName block)) = some namespaceName := by
    rw [lines, linesBefore_eq.1, List.map_append, List.map_cons, List.append_assoc]
    exact lineBehind?_of_first firstNamespace namespaceParts _
  have classFound : lineBehind? classWord
      (Text.splitOn '\n' (builtin.substitute namespaceName block)) = some block.name := by
    rw [lines, linesBefore_eq.2, List.map_append, List.map_cons, List.append_assoc]
    exact lineBehind?_of_first firstClass classParts _
  have properties : (block.properties.map assigned).map propertyOf = block.properties := by
    rw [List.map_map]
    exact (List.map_congr_left fun property member =>
      propertyOf_assigned (nameable.members property member)).trans (List.map_id _)
  rw [read?, namespaceFound, classFound]
  simp only [initializer_builtin nameable, List.dropLast_concat, properties]

theorem render_builtin (nameable : NameableClass namespaceName block) :
    builtin.render namespaceName block = builtin.substitute namespaceName block :=
  render_of_guarded guarded_builtin nameable.qualified.brace_notMem nameable.named.brace_notMem

theorem wrapper_determines_class {namespaceName : Text} {block : ClassBlock}
    (nameable : NameableClass namespaceName block) :
    let wrapper := builtin.render namespaceName block
    (∀ p : Placeholder, Text.contains p.text wrapper = false) ∧
    initializer (Text.splitOn '\n' wrapper) = block.properties.map assigned ++ [[]] ∧
    read? wrapper = some (namespaceName, block.name, block.properties) ∧
    ∀ otherNamespace other, NameableClass otherNamespace other →
      builtin.render otherNamespace other = wrapper →
        otherNamespace = namespaceName ∧ other.name = block.name ∧ other.properties = block.properties := by
  intro wrapper
  have whole : wrapper = builtin.substitute namespaceName block := render_builtin nameable
  rw [whole]
  refine ⟨placeholders_absent guarded_builtin nameable, initializer_builtin nameable,
    read?_builtin nameable, ?_⟩
  intro otherNamespace other otherNameable same
  have read := read?_builtin otherNameable
  rw [← render_builtin otherNameable, same, read?_builtin nameable] at read
  simpa [eq_comm] using read

def ownWords : ClassBlock where
  name := "Rig".toList
  properties := ["value".toList, "Rig".toList, "value".toList, "class_name".toList]
  line := 1

theorem read?_ownWords : NameableClass "Rig.namespace".toList ownWords ∧
    read? (builtin.render "Rig.namespace".toList ownWords) =
      some ("Rig.namespace".toList, ownWords.name, ownWords.properties) := by
  have plain : ownWords.properties.all (List.all · Text.isTypeSign) = true := by decide
  have nameable : NameableClass "Rig.namespace".toList ownWords := {
    qualified := .of_signs (by decide)
    named := .of_signs (by decide)
    members := fun property listed => .of_signs (List.all_eq_true.mp plain property listed) }
  exact ⟨nameable, (wrapper_determines_class nameable).2.2.1⟩

end Template

end SchemaClasses
