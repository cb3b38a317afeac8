import SchemaClasses.Proofs.Source.FieldLines
import SchemaClasses.Proofs.Source.ScanStates

set_option autoImplicit false

namespace SchemaClasses

namespace Text

theorem foldCase_eq_iff_toLower {c d : Char} (apart : d ∉ ['s', 'k', '\u017f', '\u212a']) :
    foldCase c = d ↔ c.toLower = d := by
  simp only [List.mem_cons, List.not_mem_nil, or_false, not_or] at apart
  obtain ⟨notS, notK, notLong, notKelvin⟩ := apart
  unfold foldCase
  split
  · rename_i long
    subst long
    exact iff_of_false (Ne.symm notS) (Ne.symm notLong)
  · split
    · rename_i kelvin
      subst kelvin
      exact iff_of_false (Ne.symm notK) (Ne.symm notKelvin)
    · rfl

theorem map_foldCase_eq_iff_toLower {s pattern : Text}
    (apart : ∀ d ∈ pattern, d ∉ ['s', 'k', '\u017f', '\u212a']) :
    s.map foldCase = pattern ↔ s.map Char.toLower = pattern := by
  induction pattern generalizing s with
  | nil => simp
  | cons d pattern ih =>
    obtain ⟨here, later⟩ := List.forall_mem_cons.mp apart
    cases s with
    | nil => simp
    | cons c s => simp [foldCase_eq_iff_toLower here, ih later]

end Text

namespace LineKind

open Text

def StartsPublic (line : Text) : Prop :=
  ∃ keyword b rest, line = keyword ++ b :: rest ∧
    keyword.map Char.toLower = "public".toList ∧ isBlank b = true

theorem startsPublic_iff_folded {line : Text} : StartsPublic line ↔ ∃ keyword b rest,
    line = keyword ++ b :: rest ∧ keyword.map foldCase = "public".toList ∧ isBlank b = true := by
  have apart : ∀ d ∈ "public".toList, d ∉ ['s', 'k', '\u017f', '\u212a'] := by simp
  simp only [StartsPublic, map_foldCase_eq_iff_toLower apart]

theorem isPublic_iff {line : Text} : isPublic line = true ↔ StartsPublic line := by
  rw [startsPublic_iff_folded]
  constructor
  · intro found
    unfold isPublic at found
    split at found
    · rename_i after dropped
      obtain ⟨keyword, rfl, folded⟩ := dropStartFolded?_eq_some_iff.mp dropped
      cases after with
      | nil => cases found
      | cons b rest => exact ⟨keyword, b, rest, rfl, folded, found⟩
    · cases found
  · rintro ⟨keyword, b, rest, rfl, folded, blank⟩
    rw [isPublic, dropStartFolded?_append folded]
    exact blank

theorem startsPublic_of_header {line name : Text} (found : headerName? line = some name) :
    StartsPublic line := by
  obtain ⟨read, blanks, rest, rfl, folded, -⟩ := headerName?_eq_some found
  have cut : read.map foldCase = "public".toList ++ ' ' :: "partial class".toList := folded
  obtain ⟨keyword, more, rfl, keyed, behind⟩ := List.map_eq_append_iff.mp cut
  obtain ⟨b, more, rfl, blank, -⟩ := List.map_eq_cons_iff.mp behind
  refine startsPublic_iff_folded.mpr ⟨keyword, b, _, by simp; rfl, keyed, ?_⟩
  rw [← isBlank_foldCase, blank]
  decide

theorem StartsPublic.ne_brace {line : Text} (starts : StartsPublic line) :
    line ≠ ['\x7b'] ∧ line ≠ ['\x7d'] := by
  obtain ⟨keyword, b, rest, rfl, folded, -⟩ := starts
  have six : keyword.length = 6 := by simpa using congrArg List.length folded
  have long : (keyword ++ b :: rest).length = 7 + rest.length := by simp [six]; omega
  constructor <;> intro alone <;> rw [alone, List.length_singleton] at long <;> omega

theorem startsPublic_iff_kind (line : Text) : StartsPublic (trim line) ↔
    (∃ name shape, ofLine line = .member name shape) ∨ ofLine line = .unrecognizedMember ∨
      ∃ name, ofLine line = .classHeader name := by
  constructor
  · intro starts
    obtain ⟨noOpen, noClose⟩ := starts.ne_brace
    rw [ofLine, ofTrimmed, if_neg noOpen, if_neg noClose]
    split
    · exact .inr (.inr ⟨_, rfl⟩)
    · split
      · exact .inl ⟨_, _, rfl⟩
      · split
        · exact .inl ⟨_, _, rfl⟩
        · rw [if_pos (isPublic_iff.mpr starts)]
          exact .inr (.inl rfl)
  · rintro (⟨name, shape, kind⟩ | kind | ⟨name, kind⟩)
    · rcases memberName?_of_ofTrimmed kind with ⟨-, found⟩ | ⟨-, found⟩ <;>
        exact startsPublic_iff_folded.mpr (exists_keyword found)
    · unfold ofLine ofTrimmed at kind
      repeat' split at kind
      case h_2.isTrue starts => exact isPublic_iff.mp starts
      all_goals cases kind
    · exact startsPublic_of_header (headerName?_of_ofTrimmed kind)

theorem ofLine_openBrace_iff (line : Text) : ofLine line = .openBrace ↔ trim line = ['\x7b'] := by
  unfold ofLine ofTrimmed
  constructor
  · intro kind
    split at kind
    · assumption
    · repeat' split at kind
      all_goals cases kind
  · intro alone
    rw [if_pos alone]

theorem ofLine_closeBrace_iff (line : Text) : ofLine line = .closeBrace ↔ trim line = ['\x7d'] := by
  unfold ofLine ofTrimmed
  constructor
  · intro kind
    split at kind
    · cases kind
    · split at kind
      · assumption
      · repeat' split at kind
        all_goals cases kind
  · intro alone
    rw [alone]
    rfl

end LineKind

namespace Scan

open Text LineKind

def depthChange (text : Text) : Int :=
  if trim text = ['\x7b'] then 1 else if trim text = ['\x7d'] then -1 else 0

def Reports (line : SourceLine) (kinds : List DiagnosticKind) (report : List Diagnostic) : Prop :=
  ∃ diagnostic, report = [diagnostic] ∧ diagnostic.line = line.number ∧ diagnostic.kind ∈ kinds

def AddsOrReports (block : ClassBlock) (line : SourceLine) (next : ClassBlock)
    (report : List Diagnostic) : Prop :=
  ((∃ name shape, line.kind = .member name shape ∧
    next = { block with properties := block.properties ++ [name] }) ∧ report = []) ∨
  (next = block ∧ Reports line [.unrecognizedMember, .nestedClass] report)

/-- What a line inside a class adds to the class, where it leaves the depth, and what is reported at
it. -/
structure BodyAccount (block : ClassBlock) (depth : Int) (line : SourceLine) (next : ClassBlock)
    (level : Int) (report : List Diagnostic) : Prop where
  counted : level = depth + depthChange line.text
  publicLine : StartsPublic (trim line.text) → AddsOrReports block line next report
  belowZero : level < depth → level < 0 → next = block ∧ Reports line [.negativeBraceDepth] report
  silent : ¬ StartsPublic (trim line.text) → ¬ (level < depth ∧ level < 0) →
    next = block ∧ report = []

/-- What a line brings to a scan in the state that it meets, and the state behind it. -/
inductive Account (line : SourceLine) : ScanState → ScanState → Scan → Prop where
  | passed (other : ∀ name, line.kind ≠ .classHeader name) : Account line .outside .outside ⟨[], []⟩
  | opened {name : Text} (header : line.kind = .classHeader name) :
      Account line .outside (.inside ⟨name, [], line.number⟩ 0) ⟨[], []⟩
  | closed {block next : ClassBlock} {depth : Int} {report : List Diagnostic}
      (body : BodyAccount block depth line next 0 report) :
      Account line (.inside block depth) .outside ⟨[next], report⟩
  | held {block next : ClassBlock} {depth level : Int} {report : List Diagnostic}
      (body : BodyAccount block depth line next level report) (deep : level ≠ 0) :
      Account line (.inside block depth) (.inside next level) ⟨[], report⟩

theorem depthChange_of_public {text : Text} (starts : StartsPublic (trim text)) :
    depthChange text = 0 := by
  obtain ⟨noOpen, noClose⟩ := starts.ne_brace
  rw [depthChange, if_neg noOpen, if_neg noClose]

section

variable {block next : ClassBlock} {depth level : Int} {line : SourceLine} {report : List Diagnostic}

theorem BodyAccount.of_public (starts : StartsPublic (trim line.text))
    (brings : AddsOrReports block line next report) :
    BodyAccount block depth line next depth report where
  counted := by rw [depthChange_of_public starts, Int.add_zero]
  publicLine _ := brings
  belowZero lower := absurd lower (Int.lt_irrefl depth)
  silent notPublic := absurd starts notPublic

theorem BodyAccount.of_silent (notPublic : ¬ StartsPublic (trim line.text))
    (counted : level = depth + depthChange line.text) (rises : depth ≤ level) :
    BodyAccount block depth line block level [] where
  counted := counted
  publicLine starts := absurd starts notPublic
  belowZero lower := absurd lower (Int.not_lt.mpr rises)
  silent _ _ := ⟨rfl, rfl⟩

end

theorem bodyLine_account (block : ClassBlock) (depth : Int) (line : SourceLine) :
    BodyAccount block depth line (bodyLine block depth line).1 (bodyLine block depth line).2.1
      (bodyLine block depth line).2.2 := by
  have starts := startsPublic_iff_kind line.text
  have isOpen := ofLine_openBrace_iff line.text
  have isClose := ofLine_closeBrace_iff line.text
  unfold bodyLine
  cases kind : ofLine line.text with
  | member name shape =>
    exact .of_public (starts.mpr (.inl ⟨name, shape, kind⟩)) (.inl ⟨⟨name, shape, kind, rfl⟩, rfl⟩)
  | unrecognizedMember =>
    exact .of_public (starts.mpr (.inr (.inl kind)))
      (.inr ⟨rfl, _, rfl, rfl, List.mem_cons_self⟩)
  | classHeader name =>
    exact .of_public (starts.mpr (.inr (.inr ⟨name, kind⟩)))
      (.inr ⟨rfl, _, rfl, rfl, List.mem_cons_of_mem _ List.mem_cons_self⟩)
  | openBrace =>
    have notPublic : ¬ StartsPublic (trim line.text) := by simp [starts, kind]
    have change : depthChange line.text = 1 := if_pos (isOpen.mp kind)
    exact .of_silent notPublic (by rw [change]) (Int.le_add_one (Int.le_refl depth))
  | closeBrace =>
    change BodyAccount block depth line block (depth - 1)
      (if depth - 1 < 0 then [.negativeBraceDepth line block (depth - 1)] else [])
    have notPublic : ¬ StartsPublic (trim line.text) := by simp [starts, kind]
    refine ⟨?_, fun isPublic => absurd isPublic notPublic, fun _ negative => ?_, fun _ above => ?_⟩
    · rw [depthChange, isClose.mp kind]
      rfl
    · exact ⟨rfl, _, if_pos negative, rfl, List.mem_singleton_self _⟩
    · exact ⟨rfl, if_neg (by omega)⟩
  | other =>
    have notPublic : ¬ StartsPublic (trim line.text) := by simp [starts, kind]
    have noOpen : trim line.text ≠ ['\x7b'] := by simp [← isOpen, kind]
    have noClose : trim line.text ≠ ['\x7d'] := by simp [← isClose, kind]
    have change : depthChange line.text = 0 := by rw [depthChange, if_neg noOpen, if_neg noClose]
    exact .of_silent notPublic (by rw [change, Int.add_zero]) (Int.le_refl depth)

theorem step_account (state : ScanState) (line : SourceLine) :
    Account line state (step state line).1 (step state line).2 := by
  cases state with
  | outside =>
    simp only [step]
    cases kind : ofLine line.text with
    | classHeader name => exact .opened kind
    | openBrace | closeBrace | member | unrecognizedMember | other =>
      refine .passed fun name header => ?_
      rw [SourceLine.kind, kind] at header
      cases header
  | inside block depth =>
    have body := bodyLine_account block depth line
    simp only [step]
    split
    · rename_i zero
      exact .closed (zero ▸ body)
    · rename_i deep
      exact .held body deep

/-- Lines read one after another from a state on, each with what it brings, and the state behind
them. -/
inductive Accounts : ScanState → List SourceLine → List Scan → ScanState → Prop where
  | done (state : ScanState) : Accounts state [] [] state
  | line {state last : ScanState} {line : SourceLine} {lines : List SourceLine} {scans : List Scan}
      (here : Account line state (step state line).1 (step state line).2)
      (later : Accounts (step state line).1 lines scans last) :
      Accounts state (line :: lines) ((step state line).2 :: scans) last

theorem Reports.lines {line : SourceLine} {kinds : List DiagnosticKind} {report : List Diagnostic}
    (reported : Reports line kinds report) : report.map Diagnostic.line = [line.number] := by
  obtain ⟨diagnostic, rfl, place, -⟩ := reported
  rw [List.map_singleton, place]

theorem BodyAccount.lines_sublist {block next : ClassBlock} {depth level : Int} {line : SourceLine}
    {report : List Diagnostic} (body : BodyAccount block depth line next level report) :
    (report.map Diagnostic.line).Sublist [line.number] := by
  by_cases starts : StartsPublic (trim line.text)
  · rcases body.publicLine starts with ⟨-, rfl⟩ | ⟨-, reported⟩
    · exact List.nil_sublist _
    · exact reported.lines ▸ List.Sublist.refl _
  · by_cases below : level < depth ∧ level < 0
    · exact (body.belowZero below.1 below.2).2.lines ▸ List.Sublist.refl _
    · obtain ⟨-, rfl⟩ := body.silent starts below
      exact List.nil_sublist _

theorem Account.lines_sublist {line : SourceLine} {state next : ScanState} {scan : Scan}
    (account : Account line state next scan) :
    (scan.diagnostics.map Diagnostic.line).Sublist [line.number] := by
  cases account with
  | passed other => exact List.nil_sublist _
  | opened header => exact List.nil_sublist _
  | closed body => exact body.lines_sublist
  | held body deep => exact body.lines_sublist

theorem Accounts.lines_sublist {state last : ScanState} {lines : List SourceLine}
    {scans : List Scan} (accounts : Accounts state lines scans last) :
    ((scans.flatMap Scan.diagnostics).map Diagnostic.line).Sublist (lines.map SourceLine.number) := by
  induction accounts with
  | done state => exact List.Sublist.refl _
  | line here later ih =>
    rw [List.flatMap_cons, List.map_append, List.map_cons]
    exact here.lines_sublist.append ih

theorem resume_accounts (state : ScanState) (lines : List SourceLine) :
    ∃ scans last, Accounts state lines scans last ∧
      resume state lines = ⟨scans.flatMap Scan.classes,
        scans.flatMap Scan.diagnostics ++ (finish last).diagnostics⟩ := by
  induction lines generalizing state with
  | nil => exact ⟨[], state, .done state, by cases state <;> rfl⟩
  | cons line lines ih =>
    obtain ⟨scans, last, later, whole⟩ := ih (step state line).1
    exact ⟨_, last, .line (step_account state line) later, by simp [resume, whole, append]⟩

theorem every_line_accounted (lines : List SourceLine) :
    ∃ scans last ending, Accounts .outside lines scans last ∧
      (ofLines lines).classes = scans.flatMap Scan.classes ∧
      (ofLines lines).diagnostics = scans.flatMap Scan.diagnostics ++ ending ∧
      ((scans.flatMap Scan.diagnostics).map Diagnostic.line).Sublist (lines.map SourceLine.number) ∧
      match last with
      | .outside => ending = []
      | .inside block _ => ∃ diagnostic, ending = [diagnostic] ∧
          diagnostic.kind = .unterminatedClass ∧ diagnostic.line = block.line := by
  obtain ⟨scans, last, accounts, whole⟩ := resume_accounts .outside lines
  refine ⟨scans, last, (finish last).diagnostics, accounts, ?_, ?_, accounts.lines_sublist, ?_⟩
  · rw [ofLines, whole]
  · rw [ofLines, whole]
  · cases last with
    | outside => rfl
    | inside block depth => exact ⟨_, rfl, rfl, rfl⟩

end Scan

end SchemaClasses
