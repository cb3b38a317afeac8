import Mathlib.Tactic.Push
import SchemaClasses.Source.ClassBlock

set_option autoImplicit false

namespace SchemaClasses

def SourceLine.kind (line : SourceLine) : LineKind := LineKind.ofLine line.text

namespace Scan

def opened (run : List SourceLine) : Nat := run.countP fun line => line.kind = .openBrace

def closed (run : List SourceLine) : Nat := run.countP fun line => line.kind = .closeBrace

def Balanced (run : List SourceLine) : Prop := opened run = closed run

def memberName? (line : SourceLine) : Option Text :=
  match line.kind with
  | .member name _ => some name
  | _ => none

def memberNames (run : List SourceLine) : List Text := run.filterMap memberName?

theorem exists_kind_of_memberName? {line : SourceLine} {name : Text}
    (found : memberName? line = some name) : ∃ shape, line.kind = .member name shape := by
  unfold memberName? at found
  split at found <;> cases found
  exact ⟨_, ‹_›⟩

/-- A balanced run that no shorter run from the same line on is. -/
structure IsBody (run : List SourceLine) : Prop where
  nonempty : run ≠ []
  balanced : Balanced run
  shortest : ∀ shorter, shorter <+: run → shorter ≠ [] → shorter ≠ run → ¬ Balanced shorter

/-- The blocks of a list of lines, and the header whose class stays open, if there is one. -/
inductive Outline : List SourceLine → List ClassBlock → Option SourceLine → Prop where
  | done : Outline [] [] none
  | skip {line : SourceLine} {lines : List SourceLine} {blocks : List ClassBlock}
      {open? : Option SourceLine} (other : ∀ name, line.kind ≠ .classHeader name)
      (later : Outline lines blocks open?) : Outline (line :: lines) blocks open?
  | block {header : SourceLine} {name : Text} {body rest : List SourceLine}
      {blocks : List ClassBlock} {open? : Option SourceLine}
      (opens : header.kind = .classHeader name) (closes : IsBody body)
      (later : Outline rest blocks open?) :
      Outline (header :: (body ++ rest)) (⟨name, memberNames body, header.number⟩ :: blocks) open?
  | unterminated {header : SourceLine} {name : Text} {lines : List SourceLine}
      (opens : header.kind = .classHeader name)
      (stays : ∀ run, run <+: lines → run ≠ [] → ¬ Balanced run) :
      Outline (header :: lines) [] (some header)

def EndsWith (open? : Option SourceLine) (diagnostics : List Diagnostic) : Prop :=
  match open? with
  | none => ∀ found ∈ diagnostics, found.kind ≠ .unterminatedClass
  | some header => ∃ earlier last, diagnostics = earlier ++ [last] ∧
      last.kind = .unterminatedClass ∧ last.line = header.number ∧
      ∀ found ∈ earlier, found.kind ≠ .unterminatedClass

def addMembers (block : ClassBlock) (run : List SourceLine) : ClassBlock :=
  { block with properties := block.properties ++ memberNames run }

def weight (run : List SourceLine) : Int := (opened run : Int) - closed run

theorem balanced_iff {run : List SourceLine} : Balanced run ↔ weight run = 0 := by
  unfold Balanced weight
  omega

@[simp] theorem weight_nil : weight [] = 0 := rfl

theorem weight_append (first second : List SourceLine) :
    weight (first ++ second) = weight first + weight second := by
  simp only [weight, opened, closed, List.countP_append]
  omega

theorem weight_cons (line : SourceLine) (run : List SourceLine) :
    weight (line :: run) = weight [line] + weight run :=
  weight_append [line] run

@[simp] theorem addMembers_nil (block : ClassBlock) : addMembers block [] = block := by
  simp [addMembers, memberNames]

theorem addMembers_append (block : ClassBlock) (first second : List SourceLine) :
    addMembers block (first ++ second) = addMembers (addMembers block first) second := by
  simp [addMembers, memberNames]

def findings (block : ClassBlock) (depth : Int) (line : SourceLine) : List Diagnostic :=
  (bodyLine block depth line).2.2

theorem bodyLine_eq (block : ClassBlock) (depth : Int) (line : SourceLine) :
    bodyLine block depth line =
      (addMembers block [line], depth + weight [line], findings block depth line) := by
  unfold findings bodyLine
  cases kind : LineKind.ofLine line.text <;>
    simp [addMembers, memberNames, memberName?, weight, opened, closed, SourceLine.kind, kind]
  rfl

theorem kind_of_mem_findings {block : ClassBlock} {depth : Int} {line : SourceLine}
    {found : Diagnostic} (member : found ∈ findings block depth line) :
    found.kind ≠ .unterminatedClass := by
  unfold findings bodyLine at member
  cases kind : LineKind.ofLine line.text <;> simp only [kind] at member
  case closeBrace =>
    split at member <;> simp_all [Diagnostic.negativeBraceDepth]
  all_goals simp_all [Diagnostic.unrecognizedMember, Diagnostic.nestedClass]

theorem step_inside (block : ClassBlock) (depth : Int) (line : SourceLine) :
    step (.inside block depth) line =
      if depth + weight [line] = 0 then
        (.outside, ⟨[addMembers block [line]], findings block depth line⟩)
      else (.inside (addMembers block [line]) (depth + weight [line]),
        ⟨[], findings block depth line⟩) := by
  simp only [step, bodyLine_eq]

theorem append_assoc (first second third : Scan) :
    append (append first second) third = append first (append second third) := by
  simp [append]

theorem resume_skip {line : SourceLine} (other : ∀ name, line.kind ≠ .classHeader name)
    (lines : List SourceLine) : resume .outside (line :: lines) = resume .outside lines := by
  simp only [SourceLine.kind] at other
  simp [resume, step, append]

theorem resume_header {header : SourceLine} {name : Text}
    (opens : header.kind = .classHeader name) (lines : List SourceLine) :
    resume .outside (header :: lines) =
      resume (.inside ⟨name, [], header.number⟩ 0) lines := by
  simp only [SourceLine.kind] at opens
  simp [resume, step, opens, append]

theorem resume_open (block : ClassBlock) {depth : Int} {run : List SourceLine}
    (stays : ∀ start, start <+: run → start ≠ [] → depth + weight start ≠ 0)
    (rest : List SourceLine) : ∃ found : List Diagnostic,
      (∀ diagnostic ∈ found, diagnostic.kind ≠ .unterminatedClass) ∧
      resume (.inside block depth) (run ++ rest) =
        append ⟨[], found⟩ (resume (.inside (addMembers block run) (depth + weight run)) rest) := by
  induction run generalizing block depth with
  | nil => exact ⟨[], by simp, by simp [append]⟩
  | cons line run ih =>
    have first : depth + weight [line] ≠ 0 := stays [line] (by simp) (by simp)
    have deeper (start : List SourceLine) (leads : start <+: run) (nonempty : start ≠ []) :
        depth + weight [line] + weight start ≠ 0 := by
      have longer := stays (line :: start) (by simpa using leads) (by simp)
      rw [weight_cons] at longer
      omega
    obtain ⟨found, kinds, later⟩ := ih (addMembers block [line]) deeper
    refine ⟨findings block depth line ++ found, ?_, ?_⟩
    · intro diagnostic member
      rcases List.mem_append.mp member with here | there
      · exact kind_of_mem_findings here
      · exact kinds diagnostic there
    · have members := addMembers_append block [line] run
      rw [List.cons_append, resume, step_inside, if_neg first, later, weight_cons line run,
        ← Int.add_assoc, ← append_assoc]
      simp only [List.singleton_append] at members
      simp [members, append]

theorem resume_body (block : ClassBlock) {body : List SourceLine} (closes : IsBody body)
    (rest : List SourceLine) : ∃ found : List Diagnostic,
      (∀ diagnostic ∈ found, diagnostic.kind ≠ .unterminatedClass) ∧
      resume (.inside block 0) (body ++ rest) =
        append ⟨[addMembers block body], found⟩ (resume .outside rest) := by
  obtain rfl | ⟨run, last, rfl⟩ := List.eq_nil_or_concat body
  · exact absurd rfl closes.nonempty
  · rw [List.concat_eq_append] at closes ⊢
    have stays (start : List SourceLine) (leads : start <+: run) (nonempty : start ≠ []) :
        (0 : Int) + weight start ≠ 0 := by
      have proper : start ≠ run ++ [last] := by
        rintro rfl
        exact absurd leads.length_le (by simp)
      have unbalanced := closes.shortest start (leads.trans (List.prefix_append run [last]))
        nonempty proper
      rw [balanced_iff] at unbalanced
      omega
    -- All lines but the last keep the class open, and the last one brings the depth back to zero.
    obtain ⟨found, kinds, opens⟩ := resume_open block stays (last :: rest)
    have zero : 0 + weight run + weight [last] = 0 := by
      have balanced := balanced_iff.mp closes.balanced
      rw [weight_append] at balanced
      omega
    refine ⟨found ++ findings (addMembers block run) (0 + weight run) last, ?_, ?_⟩
    · intro diagnostic member
      rcases List.mem_append.mp member with there | here
      · exact kinds diagnostic there
      · exact kind_of_mem_findings here
    · rw [List.append_assoc, List.singleton_append, opens, resume, step_inside, if_pos zero,
        ← append_assoc, addMembers_append]
      simp [append]

theorem resume_unterminated (block : ClassBlock) {lines : List SourceLine}
    (stays : ∀ run, run <+: lines → run ≠ [] → ¬ Balanced run) : ∃ found : List Diagnostic,
      (∀ diagnostic ∈ found, diagnostic.kind ≠ .unterminatedClass) ∧
      resume (.inside block 0) lines =
        ⟨[], found ++ [.unterminatedClass (addMembers block lines) (weight lines)]⟩ := by
  have deep (start : List SourceLine) (leads : start <+: lines) (nonempty : start ≠ []) :
      (0 : Int) + weight start ≠ 0 := by
    have unbalanced := stays start leads nonempty
    rw [balanced_iff] at unbalanced
    omega
  obtain ⟨found, kinds, opens⟩ := resume_open block deep []
  refine ⟨found, kinds, ?_⟩
  rw [List.append_nil] at opens
  rw [opens]
  simp [resume, finish, append]

theorem endsWith_append {found diagnostics : List Diagnostic} {open? : Option SourceLine}
    (kinds : ∀ diagnostic ∈ found, diagnostic.kind ≠ .unterminatedClass)
    (ends : EndsWith open? diagnostics) : EndsWith open? (found ++ diagnostics) := by
  have both {others : List Diagnostic} (rest : ∀ d ∈ others, d.kind ≠ .unterminatedClass) :
      ∀ d ∈ found ++ others, d.kind ≠ .unterminatedClass := fun d member =>
    (List.mem_append.mp member).elim (kinds d) (rest d)
  cases open? with
  | none => exact both ends
  | some header =>
    obtain ⟨earlier, last, rfl, kind, line, rest⟩ := ends
    exact ⟨found ++ earlier, last, by simp, kind, line, both rest⟩

theorem exists_body {lines run : List SourceLine} (leads : run <+: lines) (nonempty : run ≠ [])
    (balanced : Balanced run) : ∃ body rest, lines = body ++ rest ∧ IsBody body := by
  induction size : run.length using Nat.strongRecOn generalizing run with
  | ind n ih =>
    by_cases least : ∀ shorter, shorter <+: run → shorter ≠ [] → shorter ≠ run → ¬ Balanced shorter
    · obtain ⟨rest, rfl⟩ := leads
      exact ⟨run, rest, rfl, nonempty, balanced, least⟩
    · push Not at least
      obtain ⟨shorter, starts, visible, proper, equal⟩ := least
      have less : shorter.length < n := by
        have bound := starts.length_le
        have other : shorter.length ≠ run.length := fun same => proper (starts.eq_of_length same)
        omega
      exact ih shorter.length less (starts.trans leads) visible equal rfl

theorem outline_total (lines : List SourceLine) :
    ∃ blocks open?, Outline lines blocks open? := by
  induction size : lines.length using Nat.strongRecOn generalizing lines with
  | ind n ih =>
    cases lines with
    | nil => exact ⟨[], none, .done⟩
    | cons line lines =>
      by_cases header : ∃ name, line.kind = .classHeader name
      · obtain ⟨name, opens⟩ := header
        by_cases closes : ∃ run, run <+: lines ∧ run ≠ [] ∧ Balanced run
        · obtain ⟨run, leads, nonempty, balanced⟩ := closes
          obtain ⟨body, rest, rfl, isBody⟩ := exists_body leads nonempty balanced
          have shorter : rest.length < n := by
            rw [← size, List.length_cons, List.length_append]
            omega
          obtain ⟨blocks, open?, later⟩ := ih rest.length shorter rest rfl
          exact ⟨_, open?, .block opens isBody later⟩
        · push Not at closes
          exact ⟨[], some line, .unterminated opens closes⟩
      · push Not at header
        have shorter : lines.length < n := by
          rw [← size, List.length_cons]
          omega
        obtain ⟨blocks, open?, later⟩ := ih lines.length shorter lines rfl
        exact ⟨blocks, open?, .skip header later⟩

theorem outline_sound {lines : List SourceLine} {blocks : List ClassBlock}
    {open? : Option SourceLine} (outline : Outline lines blocks open?) :
    (ofLines lines).classes = blocks ∧ EndsWith open? (ofLines lines).diagnostics := by
  induction outline with
  | done => simp [ofLines, resume, finish, EndsWith]
  | skip other later ih =>
    rw [ofLines, resume_skip other]
    exact ih
  | @block header name body rest blocks open? opens closes later ih =>
    obtain ⟨found, kinds, read⟩ := resume_body ⟨name, [], header.number⟩ closes rest
    rw [ofLines, resume_header opens, read]
    refine ⟨by simpa [append, addMembers, ofLines] using ih.1, ?_⟩
    exact endsWith_append kinds ih.2
  | @unterminated header name lines opens stays =>
    obtain ⟨found, kinds, read⟩ :=
      resume_unterminated ⟨name, [], header.number⟩ stays
    rw [ofLines, resume_header opens, read]
    exact ⟨rfl, found, _, rfl, rfl, rfl, kinds⟩

theorem exists_run_of_outline {lines : List SourceLine} {blocks : List ClassBlock}
    {open? : Option SourceLine} (outline : Outline lines blocks open?) {block : ClassBlock}
    (member : block ∈ blocks) : ∃ header body, header :: body <:+: lines ∧
      header.kind = .classHeader block.name ∧ header.number = block.line ∧
      memberNames body = block.properties := by
  induction outline with
  | done => contradiction
  | skip other later ih =>
    obtain ⟨header, body, inside, run⟩ := ih member
    exact ⟨header, body, List.infix_cons inside, run⟩
  | @block header name body rest blocks open? opens closes later ih =>
    rcases List.mem_cons.mp member with rfl | behind
    · exact ⟨header, body, (List.prefix_append (header :: body) rest).isInfix, opens, rfl, rfl⟩
    · obtain ⟨other, run, inside, found⟩ := ih behind
      exact ⟨other, run, inside.trans (List.suffix_append (header :: body) rest).isInfix, found⟩
  | unterminated opens stays => contradiction

theorem exists_run_of_class {lines : List SourceLine} {block : ClassBlock}
    (found : block ∈ (ofLines lines).classes) : ∃ header body, header :: body <:+: lines ∧
      header.kind = .classHeader block.name ∧ header.number = block.line ∧
      memberNames body = block.properties := by
  obtain ⟨blocks, open?, outline⟩ := outline_total lines
  exact exists_run_of_outline outline ((outline_sound outline).1 ▸ found)

theorem isBody_of_braces {opening closing : SourceLine} {body : List SourceLine}
    (opens : opening.kind = .openBrace) (closes : closing.kind = .closeBrace)
    (balanced : Balanced body) (nested : ∀ start, start <+: body → closed start ≤ opened start) :
    IsBody (opening :: (body ++ [closing])) := by
  have up : weight [opening] = 1 := by simp [weight, opened, closed, opens]
  have down : weight [closing] = -1 := by simp [weight, opened, closed, closes]
  refine ⟨by simp, ?_, ?_⟩
  · rw [balanced_iff] at balanced ⊢
    rw [weight_cons, weight_append]
    omega
  · intro shorter leads nonempty proper equal
    rw [balanced_iff] at equal
    cases shorter with
    | nil => exact nonempty rfl
    | cons line start =>
      obtain ⟨rfl, inner⟩ := List.cons_prefix_cons.mp leads
      rcases List.prefix_concat_iff.mp inner with rfl | within
      · exact proper rfl
      · have positive := nested start within
        rw [weight_cons, up, weight] at equal
        omega

theorem ofLines_matches_outline (lines : List SourceLine) :
    (∃ open?, Outline lines (ofLines lines).classes open? ∧
      EndsWith open? (ofLines lines).diagnostics) ∧
    (∀ blocks open?, Outline lines blocks open? →
      (ofLines lines).classes = blocks ∧ EndsWith open? (ofLines lines).diagnostics) ∧
    ∀ (header opening closing : SourceLine) (name : Text) (body rest : List SourceLine),
      header.kind = .classHeader name → opening.kind = .openBrace → closing.kind = .closeBrace →
      Balanced body → (∀ start, start <+: body → closed start ≤ opened start) →
      lines = header :: opening :: (body ++ closing :: rest) →
      (ofLines lines).classes =
        ⟨name, memberNames body, header.number⟩ :: (ofLines rest).classes := by
  refine ⟨?_, fun blocks open? outline => outline_sound outline, ?_⟩
  · obtain ⟨blocks, open?, outline⟩ := outline_total lines
    have sound := outline_sound outline
    exact ⟨open?, sound.1.symm ▸ outline, sound.2⟩
  · rintro header opening closing name body rest headed opens closes balanced nested rfl
    obtain ⟨blocks, open?, later⟩ := outline_total rest
    have isBody := isBody_of_braces opens closes balanced nested
    have outline := Outline.block headed isBody later
    have names : memberNames (opening :: (body ++ [closing])) = memberNames body := by
      simp [memberNames, memberName?, opens, closes]
    rw [names, List.cons_append, List.append_assoc, List.singleton_append] at outline
    rw [(outline_sound outline).1, (outline_sound later).1]

end Scan

end SchemaClasses
