import SchemaClasses.Source.Line
import SchemaClasses.Source.LineKind

set_option autoImplicit false

namespace SchemaClasses

structure ClassBlock where
  name : Text
  properties : List Text
  line : Nat
deriving DecidableEq

def ClassBlock.propertyCount : List ClassBlock → Nat
  | [] => 0
  | block :: blocks => block.properties.length + propertyCount blocks

inductive DiagnosticKind where
  | unrecognizedMember
  | nestedClass
  | negativeBraceDepth
  | unterminatedClass
deriving DecidableEq

structure Diagnostic where
  line : Nat
  kind : DiagnosticKind
  message : Text
deriving DecidableEq

namespace Diagnostic

def unrecognizedMember (line : SourceLine) (block : ClassBlock) : Diagnostic :=
  ⟨line.number, .unrecognizedMember,
    "skipping unrecognized member in class ".toList ++ block.name ++ ": ".toList
      ++ Text.trim line.text⟩

def nestedClass (line : SourceLine) (name : Text) (block : ClassBlock) : Diagnostic :=
  ⟨line.number, .nestedClass,
    "ignoring class ".toList ++ name ++ " declared inside class ".toList ++ block.name⟩

def negativeBraceDepth (line : SourceLine) (block : ClassBlock) (depth : Int) : Diagnostic :=
  ⟨line.number, .negativeBraceDepth,
    "unbalanced '\x7d' in class ".toList ++ block.name ++ " (depth ".toList
      ++ Text.ofInt depth ++ [')']⟩

def unterminatedClass (block : ClassBlock) (depth : Int) : Diagnostic :=
  ⟨block.line, .unterminatedClass,
    "class ".toList ++ block.name ++ " is still open at end of input (depth ".toList
      ++ Text.ofInt depth ++ [')']⟩

end Diagnostic

/-- The depth counts opening less closing braces, and exists only while a class is open. -/
inductive ScanState where
  | outside
  | inside (block : ClassBlock) (depth : Int)
deriving DecidableEq

structure Scan where
  classes : List ClassBlock
  diagnostics : List Diagnostic
deriving DecidableEq

namespace Scan

def bodyLine (block : ClassBlock) (depth : Int) (line : SourceLine) :
    ClassBlock × Int × List Diagnostic :=
  match LineKind.ofLine line.text with
  | .openBrace => (block, depth + 1, [])
  | .closeBrace =>
    (block, depth - 1, if depth - 1 < 0 then [.negativeBraceDepth line block (depth - 1)] else [])
  | .member name _ => ({ block with properties := block.properties ++ [name] }, depth, [])
  | .unrecognizedMember => (block, depth, [.unrecognizedMember line block])
  | .classHeader name => (block, depth, [.nestedClass line name block])
  | .other => (block, depth, [])

def step : ScanState → SourceLine → ScanState × Scan
  | .outside, line =>
    match LineKind.ofLine line.text with
    | .classHeader name => (.inside ⟨name, [], line.number⟩ 0, ⟨[], []⟩)
    | _ => (.outside, ⟨[], []⟩)
  | .inside block depth, line =>
    let (block, depth, found) := bodyLine block depth line
    -- A body line after which the depth is zero closes the class.
    if depth = 0 then (.outside, ⟨[block], found⟩) else (.inside block depth, ⟨[], found⟩)

def append (first second : Scan) : Scan :=
  ⟨first.classes ++ second.classes, first.diagnostics ++ second.diagnostics⟩

def finish : ScanState → Scan
  | .outside => ⟨[], []⟩
  | .inside block depth => ⟨[], [.unterminatedClass block depth]⟩

def resume (state : ScanState) : List SourceLine → Scan
  | [] => finish state
  | line :: lines => append (step state line).2 (resume (step state line).1 lines)

def ofLines (lines : List SourceLine) : Scan := resume .outside lines

/-- A scan that does something with each class at the line that closes it. -/
def visit {m : Type → Type} [Monad m] {α : Type} (onClass : ClassBlock → m α) :
    ScanState → List SourceLine → m (Scan × List α)
  | state, [] => return (finish state, [])
  | state, line :: lines => do
    let here := step state line
    let results ← here.2.classes.mapM onClass
    let (later, others) ← visit onClass here.1 lines
    return (append here.2 later, results ++ others)

end Scan

end SchemaClasses
