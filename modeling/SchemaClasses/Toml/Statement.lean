import SchemaClasses.Toml.Plain
import SchemaClasses.Toml.Token

set_option autoImplicit false

namespace SchemaClasses.Toml

abbrev KeyPath := List Text

inductive Value where
  | string (text : Text)
  | plain
  | array (items : List Value)
  | table (fields : List (KeyPath × Value))

inductive Statement where
  | header (path : KeyPath)
  | element (path : KeyPath)
  | assign (path : KeyPath) (value : Value)

namespace Statement

inductive Frame where
  | line (key : KeyPath)
  | array (items : List Value)
  | table (fields : List (KeyPath × Value)) (key : KeyPath)

inductive KeyUse where
  | header
  | element
  | line
  | field (fields : List (KeyPath × Value)) (frames : List Frame)

inductive Assembly where
  | lineStart
  | bracket
  | key (use : KeyUse) (before : KeyPath) (mayClose : Bool)
  | keyEnd (use : KeyUse) (path : KeyPath)
  | secondBracket (path : KeyPath)
  | value (frames : List Frame)
  | plain (read : Text) (frames : List Frame)
  | plainSpace (read : Text) (frames : List Frame)
  | itemEnd (items : List Value) (frames : List Frame)
  | fieldEnd (fields : List (KeyPath × Value)) (frames : List Frame)
  | lineEnd

def nestingBound : Nat := 80

def complete (value : Value) : List Frame → List Statement × Assembly
  | [] => ([], .lineEnd)
  | .line key :: _ => ([assign key value], .lineEnd)
  | .array items :: frames => ([], .itemEnd (value :: items) frames)
  | .table fields key :: frames => ([], .fieldEnd ((key, value) :: fields) frames)

def isBareKey (word : Text) : Bool := word.all fun c => c.isAlphanum || c == '_' || c == '-'

def keyPart? : Token → Option Text
  | .word word => if isBareKey word then some word else none
  | .string false text => some text
  | _ => none

def keyStep? (use : KeyUse) (before : KeyPath) (mayClose : Bool) (token : Token) :
    Option (List Statement × Assembly) :=
  match token, use, mayClose with
  | .spaces _, _, _ => some ([], .key use before mayClose)
  | .closeBrace, .field fields frames, true => some (complete (.table fields.reverse) frames)
  | token, _, _ => (keyPart? token).map fun part => ([], .keyEnd use (part :: before))

def keyEndStep? (use : KeyUse) (path : KeyPath) (token : Token) :
    Option (List Statement × Assembly) :=
  match token, use with
  | .spaces _, _ => some ([], .keyEnd use path)
  | .dot, _ => some ([], .key use path false)
  | .equals, .line => some ([], .value [.line path.reverse])
  | .equals, .field fields frames => some ([], .value (.table fields path.reverse :: frames))
  | .closeBracket, .header => some ([header path.reverse], .lineEnd)
  | .closeBracket, .element => some ([], .secondBracket path)
  | _, _ => none

def valueStep? (frames : List Frame) (token : Token) : Option (List Statement × Assembly) :=
  match token, frames with
  | .spaces _, _ => some ([], .value frames)
  -- Between the items of an array lines may end.
  | .newline, .array _ :: _ => some ([], .value frames)
  | .closeBracket, .array items :: frames => some (complete (.array items.reverse) frames)
  | .string _ text, _ => some (complete (.string text) frames)
  | .word word, _ => some ([], .plain word frames)
  | .openBracket, _ =>
    if frames.length < nestingBound then some ([], .value (.array [] :: frames)) else none
  | .openBrace, _ =>
    if frames.length < nestingBound then some ([], .key (.field [] frames) [] true) else none
  | _, _ => none

def structureStep? (assembly : Assembly) (token : Token) : Option (List Statement × Assembly) :=
  match assembly, token with
  | .lineStart, .newline => some ([], .lineStart)
  | .lineStart, .spaces _ => some ([], .lineStart)
  | .lineStart, .openBracket => some ([], .bracket)
  | .lineStart, token => keyStep? .line [] false token
  | .bracket, .openBracket => some ([], .key .element [] false)
  | .bracket, token => keyStep? .header [] false token
  | .key use before mayClose, token => keyStep? use before mayClose token
  | .keyEnd use path, token => keyEndStep? use path token
  | .secondBracket path, .closeBracket => some ([element path.reverse], .lineEnd)
  | .value frames, token => valueStep? frames token
  | .itemEnd items frames, .spaces _ => some ([], .itemEnd items frames)
  | .itemEnd items frames, .newline => some ([], .itemEnd items frames)
  | .itemEnd items frames, .comma => some ([], .value (.array items :: frames))
  | .itemEnd items frames, .closeBracket => some (complete (.array items.reverse) frames)
  | .fieldEnd fields frames, .spaces _ => some ([], .fieldEnd fields frames)
  | .fieldEnd fields frames, .comma => some ([], .key (.field fields frames) [] false)
  | .fieldEnd fields frames, .closeBrace => some (complete (.table fields.reverse) frames)
  | .lineEnd, .spaces _ => some ([], .lineEnd)
  | .lineEnd, .newline => some ([], .lineStart)
  | _, _ => none

def finishPlain? (read : Text) (frames : List Frame) (token : Token) :
    Option (List Statement × Assembly) :=
  if Plain.isWellFormed read then do
    let (done, assembly) := complete .plain frames
    let (more, assembly) ← structureStep? assembly token
    return (done ++ more, assembly)
  else none

def step? (assembly : Assembly) (token : Token) : Option (List Statement × Assembly) :=
  match assembly, token with
  | .plain read frames, .word word => some ([], .plain (read ++ word) frames)
  | .plain read frames, .dot => some ([], .plain (read ++ ['.']) frames)
  -- One space may stand between a date and a time.
  | .plain read frames, .spaces [' '] => some ([], .plainSpace read frames)
  | .plain read frames, token => finishPlain? read frames token
  | .plainSpace read frames, .word word => some ([], .plain (read ++ ' ' :: word) frames)
  | .plainSpace read frames, token => finishPlain? read frames token
  | assembly, token => structureStep? assembly token

def ofText? (s : Text) : Option (List Statement) := do
  let tokens ← Token.ofText? s
  -- The end of the text ends its last line.
  let lines := tokens ++ [Token.newline]
  let (statements, assembly) ← lines.foldlM (fun (statements, assembly) token => do
    let (more, assembly) ← step? assembly token
    return (more.reverse ++ statements, assembly)) (([], .lineStart) : List Statement × Assembly)
  match assembly with
  | .lineStart => some statements.reverse
  | _ => none

end Statement

end SchemaClasses.Toml
