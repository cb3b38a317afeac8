import SchemaClasses.Text.Basic

set_option autoImplicit false

namespace SchemaClasses.Yaml

def isSpace (c : Char) : Bool := c == ' ' || c == '\t'

def isBreak (c : Char) : Bool := c == '\n' || c == '\u2028' || c == '\u2029'

def endsWord (s : Text) : Bool := s.head?.all fun c => isSpace c || isBreak c

structure Position where
  line : Nat
  column : Nat
deriving DecidableEq

def Position.after (pos : Position) (c : Char) : Position :=
  if isBreak c then ⟨pos.line + 1, 0⟩ else ⟨pos.line, pos.column + 1⟩

structure Cursor where
  pos : Position
  rest : Text

namespace Cursor

def advance (cursor : Cursor) (count : Nat) : Cursor :=
  ⟨⟨cursor.pos.line, cursor.pos.column + count⟩, cursor.rest.drop count⟩

end Cursor

def isMarker (mark : Text) (pos : Position) (rest : Text) : Bool :=
  pos.column == 0 && (Text.dropStart? mark rest).any endsWord

def startMark : Text := "---".toList

def endMark : Text := "...".toList

def isDocumentMark (pos : Position) (rest : Text) : Bool :=
  isMarker startMark pos rest || isMarker endMark pos rest

def isAllowed (c : Char) : Bool :=
  let n := c.toNat
  n == 9 || n == 10 || n == 13 || (0x20 ≤ n && n ≤ 0x7E) || n == 0x85 || (0xA0 ≤ n && n ≤ 0xD7FF)
    || (0xE000 ≤ n && n ≤ 0xFFFD) || 0x10000 ≤ n

def normalize (s : Text) : Text :=
  (Text.replaceAll ['\r', '\n'] ['\n'] s).map fun c => if c = '\r' ∨ c = '\u0085' then '\n' else c

def Cursor.start (s : Text) : Cursor :=
  match normalize s with
  -- A mark of the byte order takes a column.
  | '\ufeff' :: rest => ⟨⟨0, 1⟩, rest⟩
  | rest => ⟨⟨0, 0⟩, rest⟩

end SchemaClasses.Yaml
