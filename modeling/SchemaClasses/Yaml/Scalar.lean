import SchemaClasses.Text.Characters
import SchemaClasses.Yaml.Cursor

set_option autoImplicit false

namespace SchemaClasses.Yaml

inductive Gap where
  | none
  | blanks (read : Text)
  | breaks (first : Text) (others : Text)
deriving DecidableEq

namespace Gap

def add (gap : Gap) (c : Char) : Gap :=
  match gap with
  -- Blanks next to a line end do not count.
  | .none => if isBreak c then breaks [c] [] else blanks [c]
  | blanks read => if isBreak c then breaks [c] [] else blanks (c :: read)
  | breaks first others => if isBreak c then breaks first (c :: others) else breaks first others

def spansLines : Gap → Bool
  | breaks _ _ => true
  | _ => false

def text : Gap → Text
  | .none => []
  | blanks read => read.reverse
  | breaks first others =>
    if first = ['\n'] then (if others = [] then [' '] else others.reverse)
    else first ++ others.reverse

end Gap

namespace Scalar

def join (read : Text) (gap : Gap) : Text := gap.text.reverse ++ read

def isFlowIndicator (c : Char) : Bool :=
  c == ',' || c == '[' || c == ']' || c == '\x7b' || c == '\x7d'

def endsPlain (inFlow : Bool) (c : Char) (rest : Text) : Bool :=
  (c == ':' && endsWord rest) || (inFlow && isFlowIndicator c)

def misplacedColon (inFlow : Bool) (c : Char) (rest : Text) : Bool :=
  inFlow && c == ':' && rest.head?.any fun d => d == '?' || isFlowIndicator d

def plain? (inFlow : Bool) (margin : Nat) : (read : Text) → Gap → Position → Text →
    Option (Text × Bool × Cursor)
  | read, gap, pos, [] => some (read.reverse, gap.spansLines, ⟨pos, []⟩)
  | read, gap, pos, c :: rest =>
    if isSpace c || isBreak c then
      if c = '\t' ∧ gap.spansLines ∧ pos.column < margin then none
      else plain? inFlow margin read (gap.add c) (pos.after c) rest
    else if gap ≠ .none
        ∧ (c = '#' ∨ isDocumentMark pos (c :: rest) ∨ (inFlow = false ∧ pos.column < margin)) then
      some (read.reverse, gap.spansLines, ⟨pos, c :: rest⟩)
    else if misplacedColon inFlow c rest then none
    else if endsPlain inFlow c rest then some (read.reverse, gap.spansLines, ⟨pos, c :: rest⟩)
    else plain? inFlow margin (c :: join read gap) .none (pos.after c) rest

def singleQuoted? : (read : Text) → Gap → Position → Text → Option (Text × Cursor)
  | _, _, _, [] => none
  -- A quote inside is written twice.
  | read, gap, pos, '\'' :: '\'' :: rest =>
    singleQuoted? ('\'' :: join read gap) .none ((pos.after '\'').after '\'') rest
  | read, gap, pos, c :: rest =>
    if isDocumentMark pos (c :: rest) then none
    else if isSpace c || isBreak c then singleQuoted? read (gap.add c) (pos.after c) rest
    else if c = '\'' then some ((join read gap).reverse, ⟨pos.after c, rest⟩)
    else singleQuoted? (c :: join read gap) .none (pos.after c) rest

def simpleEscape? (c : Char) : Option Char :=
  match c with
  | '0' => some '\x00'
  | 'a' => some '\x07'
  | 'b' => some '\x08'
  | 't' => some '\t'
  | '\t' => some '\t'
  | 'n' => some '\n'
  | 'v' => some '\x0b'
  | 'f' => some '\x0c'
  | 'r' => some '\r'
  | 'e' => some '\x1b'
  | ' ' => some ' '
  | '"' => some '"'
  | '/' => some '/'
  | '\\' => some '\\'
  | 'N' => some '\u0085'
  | '_' => some '\u00a0'
  | 'L' => some '\u2028'
  | 'P' => some '\u2029'
  | _ => none

def escapeDigits? (c : Char) : Option Nat :=
  match c with
  | 'x' => some 2
  | 'u' => some 4
  | 'U' => some 8
  | _ => none

def doubleQuoted? : (digits value : Nat) → (read : Text) → Gap → Position → Text →
    Option (Text × Cursor)
  | _, _, _, _, _, [] => none
  | digits + 1, value, read, _, pos, c :: rest => do
    let value := 16 * value + (← Text.hexDigit? c)
    if digits = 0 then
      doubleQuoted? 0 0 ((← Text.charOfNat? value) :: read) .none (pos.after c) rest
    else doubleQuoted? digits value read .none (pos.after c) rest
  | 0, _, read, gap, pos, '\\' :: c :: rest =>
    let next := (pos.after '\\').after c
    if isBreak c then doubleQuoted? 0 0 (join read gap) (.breaks [] []) next rest
    else
      match simpleEscape? c, escapeDigits? c with
      | some value, _ => doubleQuoted? 0 0 (value :: join read gap) .none next rest
      | none, some digits => doubleQuoted? digits 0 (join read gap) .none next rest
      | none, none => none
  | 0, _, read, gap, pos, c :: rest =>
    if isDocumentMark pos (c :: rest) then none
    else if isSpace c || isBreak c then doubleQuoted? 0 0 read (gap.add c) (pos.after c) rest
    else if c = '"' then some ((join read gap).reverse, ⟨pos.after c, rest⟩)
    else if c = '\\' then none
    else doubleQuoted? 0 0 (c :: join read gap) .none (pos.after c) rest

inductive Chomping where
  | strip
  | clip
  | keep
deriving DecidableEq

def chomping? (c : Char) : Option Chomping :=
  match c with
  | '-' => some .strip
  | '+' => some .keep
  | _ => none

def indentation? (c : Char) : Option Nat :=
  if c.isDigit ∧ c ≠ '0' then some (c.toNat - '0'.toNat) else none

def blockHeader (s : Text) : Chomping × Option Nat × Text :=
  match s with
  | [] => (.clip, none, [])
  | c :: rest =>
    match chomping? c, indentation? c with
    | some chomping, _ =>
      match rest.head?.bind indentation? with
      | some indentation => (chomping, some indentation, rest.tail)
      | none => (chomping, none, rest)
    | none, some indentation =>
      match rest.head?.bind chomping? with
      | some chomping => (chomping, some indentation, rest.tail)
      | none => (.clip, some indentation, rest)
    | none, none => (.clip, none, c :: rest)

def headerEnd? (s : Text) : Option Text :=
  match s.dropWhile isSpace with
  | '#' :: rest => some (rest.dropWhile fun c => !isBreak c)
  | [] => some []
  | c :: rest => if isBreak c then some (c :: rest) else none

structure Block where
  read : Text
  lineEnd : Text
  emptyLines : Text
  startsBlank : Bool

namespace Block

def empty : Block := ⟨[], [], [], false⟩

def addLine (folded : Bool) (block : Block) (c : Char) : Block :=
  let joint : Text :=
    if folded = true ∧ block.lineEnd = ['\n'] ∧ block.startsBlank = false ∧ isSpace c = false then
      (if block.emptyLines = [] then [' '] else [])
    else block.lineEnd
  ⟨c :: (block.emptyLines ++ joint ++ block.read), [], [], isSpace c⟩

def text (block : Block) (chomping : Chomping) : Text :=
  block.read.reverse
    ++ (if chomping = .strip then [] else block.lineEnd)
    ++ (if chomping = .keep then block.emptyLines.reverse else [])

end Block

def block? (folded : Bool) (margin : Nat) :
    (inLine : Bool) → (indentation : Option Nat) → (deepest : Nat) → Block → Position → Text →
    Option (Block × Cursor)
  | _, _, _, block, pos, [] => some (block, ⟨pos, []⟩)
  | true, indentation, _, block, pos, c :: rest =>
    if isBreak c then
      block? folded margin false indentation 0 { block with lineEnd := [c] } (pos.after c) rest
    else
      block? folded margin true indentation 0 { block with read := c :: block.read }
        (pos.after c) rest
  | false, indentation, deepest, block, pos, c :: rest =>
    let deepest := max deepest pos.column
    let isBelow := indentation.all fun column => decide (pos.column < column)
    if c = ' ' ∧ isBelow then
      block? folded margin false indentation deepest block (pos.after c) rest
    else if c = '\t' ∧ isBelow then none
    else if isBreak c then
      block? folded margin false indentation deepest
        { block with emptyLines := c :: block.emptyLines } (pos.after c) rest
    else
      let column := indentation.getD (max deepest (max margin 1))
      if pos.column = column then
        block? folded margin true (some column) 0 (block.addLine folded c) (pos.after c) rest
      else some (block, ⟨pos, c :: rest⟩)

def ofBlock? (folded : Bool) (outer : Option Nat) (cursor : Cursor) : Option (Text × Cursor) := do
  let (chomping, indentation, rest) := blockHeader cursor.rest
  let margin := match outer with
    | some column => column + 1
    | none => 0
  let indentation := indentation.map fun count => outer.getD 0 + count
  match ← headerEnd? rest with
  | [] => return ([], ⟨cursor.pos, []⟩)
  | c :: rest =>
    let (block, cursor) ← block? folded margin false indentation 0 .empty (cursor.pos.after c) rest
    return (block.text chomping, cursor)

end Scalar

end SchemaClasses.Yaml
