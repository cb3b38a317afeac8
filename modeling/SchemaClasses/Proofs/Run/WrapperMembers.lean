import SchemaClasses.Proofs.Run.ArtifactPaths
import SchemaClasses.Proofs.Source.ClassRuns
import SchemaClasses.Proofs.Source.DeclaredNames

set_option autoImplicit false

namespace SchemaClasses

namespace Pipeline

theorem members_of_expanded_lines (pipeline : Pipeline) (source : Text) :
    let lines := SourceLine.split (Passes.ofSource pipeline.settings source).stripped.text
    let report := pipeline.report source
    let rewritten := Shorthand.rewritten pipeline.settings.layout
    (∀ {σ : Type} (writer : Writer (StateM σ)) (start last : σ) (answer : Report),
      (pipeline.process writer source).run.run start = (.ok answer, last) → answer = report ∧
        writer.Takes (⟨pipeline.combinedPath,
          SourceLine.join (lines.map fun line => rewritten line.text)⟩ ::
            report.classes.map pipeline.style.artifact) start last) ∧
    ∀ block ∈ report.classes,
      (pipeline.style.artifact block).content =
        pipeline.template.render pipeline.settings.namespaceName block ∧
      ∃ header body, header :: body <:+: lines ∧ header.kind = .classHeader block.name ∧
        header.number = block.line ∧ Scan.memberNames body = block.properties ∧
        ∀ line ∈ body, ∀ found modifier type name, Scan.memberName? line = some found →
          Shorthand.isConvertible line.text = true → SpacedOnce line.text modifier type name →
          found = name ∧
          (∃ field indent ending others, Text.splitOn '\n' (rewritten line.text) = field ::
              (indent ++ modifier ++ ' ' :: type ++ ' ' :: Naming.upperFirst found ++ ending) ::
                others ∧
            (ending = [] ∨ ∃ accessors, ending = " \x7b ".toList ++ accessors)) ∧
          (Naming.upperFirst found = found ↔
            ∀ c ∈ found.head?, c.isLower = false ∧ c ≠ '\u017f') := by
  intro lines report rewritten
  constructor
  · intro σ writer start last answer succeeds
    have combined : (Passes.ofSource pipeline.settings source).expanded.text =
        SourceLine.join (lines.map fun line => rewritten line.text) := by
      refine (congrArg Shorthand.Expansion.text (Shorthand.expandLines_eq _ lines)).trans ?_
      rw [List.map_map]
      rfl
    exact ⟨eq_report_of_process succeeds, combined ▸ takes_of_process succeeds⟩
  · intro block member
    refine ⟨rfl, ?_⟩
    obtain ⟨header, body, inside, opens, number, names⟩ := Scan.exists_run_of_class member
    refine ⟨header, body, inside, opens, number, names, ?_⟩
    intro line inBody found modifier type name collected convertible spaced
    have single : '\n' ∉ line.text := Text.notMem_of_mem_splitOn
      (SourceLine.text_mem_of_mem_numbered (inside.subset (List.mem_cons_of_mem _ inBody)))
    obtain ⟨shape, kind⟩ := Scan.exists_kind_of_memberName? collected
    exact spaced.member_of_expanded pipeline.settings.layout single convertible kind

theorem capital_member_of_block :
    let pipeline : Pipeline :=
      ⟨{ Settings.standard with layout := .block }, standardOutputFile, ⟨"out".toList⟩, .builtin⟩
    let declared := "    public List<int> Sizes \x7b Get; set; \x7d = new();\r".toList
    let source := "public partial class A\n\x7b\n".toList ++ declared ++ "\n\x7d".toList
    ⟨"A".toList, ["Sizes".toList], 1⟩ ∈ (pipeline.report source).classes ∧
    Shorthand.isConvertible declared = true ∧
    SpacedOnce declared "public".toList "List<int>".toList "Sizes".toList ∧
    Naming.upperFirst "Sizes".toList = "Sizes".toList ∧
    ∃ field indent ending others,
      Text.splitOn '\n' (Shorthand.rewritten .block declared) =
        field :: (indent ++ "public List<int> Sizes".toList ++ ending) :: others := by
  intro pipeline declared source
  have found : ⟨"A".toList, ["Sizes".toList], 1⟩ ∈ (pipeline.report source).classes := by
    decide +kernel
  have convertible : Shorthand.isConvertible declared = true := by decide +kernel
  have spaced : SpacedOnce declared "public".toList "List<int>".toList "Sizes".toList :=
    ⟨⟨"\x7b Get; set; \x7d = new();".toList, by decide +kernel⟩,
      by simp [Text.isBlank], by simp [Text.isBlank],
      ⟨'S', "izes".toList, rfl, by decide +kernel, List.all_eq_true.mp (by decide +kernel)⟩⟩
  have only : ∀ line ∈ SourceLine.split (Passes.ofSource pipeline.settings source).stripped.text,
      Scan.memberName? line = some "Sizes".toList → line.text = declared := by
    decide +kernel
  obtain ⟨-, header, body, inside, -, -, names, each⟩ :=
    (members_of_expanded_lines pipeline source).2 _ found
  have collected : "Sizes".toList ∈ Scan.memberNames body := names ▸ List.mem_cons_self
  obtain ⟨line, member, named⟩ := List.mem_filterMap.mp collected
  have text := only line (inside.subset (List.mem_cons_of_mem _ member)) named
  obtain ⟨-, ⟨field, indent, ending, others, lines, -⟩, same⟩ :=
    each line member _ _ _ _ named (text ▸ convertible) (text ▸ spaced)
  have kept : Naming.upperFirst "Sizes".toList = "Sizes".toList :=
    same.mpr fun c first => Option.some.inj first ▸ by decide
  refine ⟨found, convertible, spaced, kept, field, indent, ending, others, ?_⟩
  rw [kept, text] at lines
  simpa using lines

theorem collected_members_not_declared :
    let template : Template := ⟨"\x7b\x7bproperties\x7d\x7d".toList⟩
    let pipeline : Pipeline := ⟨.standard, standardOutputFile, ⟨"out".toList⟩, template⟩
    ∀ line found expanded, (line, found, expanded) ∈ [
        ("public int count \x7b get; set; \x7d = 3;".toList, "count".toList,
          ("private int count = 3;\n" ++
            "public int Count \x7b get \x7b return count; \x7d set \x7b count = value; \x7d \x7d").toList),
        ("public  int Count \x7b get; set; \x7d = 3;".toList, "Count".toList,
          ("private  int = 3;\n" ++
            "public  Int \x7b get \x7b return int; \x7d set \x7b int = value; \x7d \x7d").toList),
        ("public int A.B \x7b get; set; \x7d = new Foo;".toList, "Foo".toList,
          ("private int a.B = new Foo;\n" ++
            "public int A.B \x7b get \x7b return a.B; \x7d set \x7b a.B = value; \x7d \x7d").toList)] →
      let source := "public partial class A\n\x7b\n".toList ++ line ++ "\n\x7d".toList
      let block : ClassBlock := ⟨"A".toList, [found], 1⟩
      let store := (pipeline.processInMemory source).2
      (pipeline.processInMemory source).1 = .ok (pipeline.report source) ∧
      (pipeline.report source).classes = [block] ∧ Shorthand.isConvertible line = true ∧
      store.get? (pipeline.style.artifact block).path =
        some ("\t\t\t\t\t".toList ++ found ++ " = ".toList ++ found ++ ",\n".toList) ∧
      store.get? pipeline.combinedPath =
        some ("public partial class A\n\x7b\n".toList ++ expanded ++ "\n\x7d".toList) ∧
      (Shorthand.parse? line).map (fun property => property.expand.publicName) ≠ some found := by
  intro template pipeline line found expanded listed source block store
  obtain ⟨answered, held⟩ := Prod.ext_iff.mp (processInMemory_eq pipeline source)
  refine ⟨answered, ?_⟩
  rw [show store = _ from held]
  simp only [List.mem_cons, Prod.mk.injEq, List.not_mem_nil, or_false] at listed
  rcases listed with ⟨rfl, rfl, rfl⟩ | ⟨rfl, rfl, rfl⟩ | ⟨rfl, rfl, rfl⟩ <;> decide +kernel

end Pipeline

end SchemaClasses
