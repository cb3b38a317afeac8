import SchemaClasses.Proofs.Source.ClassRuns

set_option autoImplicit false

namespace SchemaClasses

def SourceLine.shift (distance : Nat) (line : SourceLine) : SourceLine :=
  { line with number := line.number + distance }

@[simp] theorem SourceLine.text_shift (distance : Nat) (line : SourceLine) :
    (line.shift distance).text = line.text := rfl

def ClassBlock.shift (distance : Nat) (block : ClassBlock) : ClassBlock :=
  { block with line := block.line + distance }

def Diagnostic.shift (distance : Nat) (diagnostic : Diagnostic) : Diagnostic :=
  { diagnostic with line := diagnostic.line + distance }

def ScanState.shift (distance : Nat) : ScanState → ScanState
  | .outside => .outside
  | .inside block depth => .inside (block.shift distance) depth

theorem SourceLine.numbered_shift (distance first : Nat) (texts : List Text) :
    (numbered first texts).map (shift distance) = numbered (first + distance) texts := by
  induction texts generalizing first with
  | nil => rfl
  | cons text texts ih =>
    rw [numbered, List.map_cons, ih, numbered, Nat.add_right_comm]
    rfl

namespace Scan

def shift (distance : Nat) (scan : Scan) : Scan :=
  ⟨scan.classes.map (ClassBlock.shift distance), scan.diagnostics.map (Diagnostic.shift distance)⟩

def stateAfter (state : ScanState) (lines : List SourceLine) : ScanState :=
  lines.foldl (fun state line => (step state line).1) state

def found : ScanState → List SourceLine → Scan
  | _, [] => ⟨[], []⟩
  | state, line :: lines => append (step state line).2 (found (step state line).1 lines)

theorem resume_append (state : ScanState) (first second : List SourceLine) :
    resume state (first ++ second) =
      append (found state first) (resume (stateAfter state first) second) := by
  induction first generalizing state with
  | nil => rfl
  | cons line lines ih =>
    rw [List.cons_append, resume, ih, found, append_assoc]
    rfl

theorem ofLines_append {first : List SourceLine} (outside : stateAfter .outside first = .outside)
    (second : List SourceLine) :
    ofLines (first ++ second) = append (ofLines first) (ofLines second) := by
  have alone := resume_append .outside first []
  have both := resume_append .outside first second
  rw [List.append_nil] at alone
  rw [outside] at alone both
  rw [ofLines, ofLines, ofLines, both, alone]
  simp [append, resume, finish]

theorem bodyLine_shift (distance : Nat) (block : ClassBlock) (depth : Int) (line : SourceLine) :
    bodyLine (block.shift distance) depth (line.shift distance) =
      ((bodyLine block depth line).1.shift distance, (bodyLine block depth line).2.1,
        (bodyLine block depth line).2.2.map (Diagnostic.shift distance)) := by
  unfold bodyLine
  rw [SourceLine.text_shift]
  cases LineKind.ofLine line.text with
  | closeBrace =>
    by_cases negative : depth - 1 < 0
    · simp only [negative, if_true]
      rfl
    · simp [negative]
  | openBrace | member | unrecognizedMember | classHeader | other => rfl

theorem step_shift (distance : Nat) (state : ScanState) (line : SourceLine) :
    step (state.shift distance) (line.shift distance) =
      ((step state line).1.shift distance, (step state line).2.shift distance) := by
  cases state with
  | outside =>
    simp only [ScanState.shift, step, SourceLine.text_shift]
    cases LineKind.ofLine line.text <;> rfl
  | inside block depth =>
    simp only [ScanState.shift, step, bodyLine_shift]
    split <;> rfl

theorem append_shift (distance : Nat) (first second : Scan) :
    (append first second).shift distance = append (first.shift distance) (second.shift distance) := by
  simp [append, shift]

theorem resume_shift (distance : Nat) (state : ScanState) (lines : List SourceLine) :
    resume (state.shift distance) (lines.map (SourceLine.shift distance)) =
      (resume state lines).shift distance := by
  induction lines generalizing state with
  | nil => cases state <;> rfl
  | cons line lines ih =>
    rw [List.map_cons, resume, step_shift, ih, resume, append_shift]

theorem ofLines_shift (distance : Nat) (lines : List SourceLine) :
    ofLines (lines.map (SourceLine.shift distance)) = (ofLines lines).shift distance :=
  resume_shift distance .outside lines

theorem step_congr (line other : SourceLine) (number : line.number = other.number)
    (text : Text.trim line.text = Text.trim other.text) (state : ScanState) :
    step state line = step state other := by
  have kind : LineKind.ofLine line.text = LineKind.ofLine other.text :=
    congrArg LineKind.ofTrimmed text
  cases state with
  | outside => simp only [step, kind, number]
  | inside block depth =>
    have body : bodyLine block depth line = bodyLine block depth other := by
      simp only [bodyLine, kind, Diagnostic.unrecognizedMember, Diagnostic.nestedClass,
        Diagnostic.negativeBraceDepth, number, text]
    simp only [step, body]

theorem resume_congr {texts others : List Text}
    (same : texts.map Text.trim = others.map Text.trim) (first : Nat) (state : ScanState) :
    resume state (SourceLine.numbered first texts) =
      resume state (SourceLine.numbered first others) := by
  induction texts generalizing others first state with
  | nil =>
    obtain rfl := List.map_eq_nil_iff.mp same.symm
    rfl
  | cons text texts ih =>
    cases others with
    | nil => contradiction
    | cons other others =>
      obtain ⟨here, later⟩ := List.cons.inj same
      rw [SourceLine.numbered, SourceLine.numbered, resume, resume,
        step_congr ⟨first, text⟩ ⟨first, other⟩ rfl here, ih later]

end Scan

end SchemaClasses
