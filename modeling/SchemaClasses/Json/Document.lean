import SchemaClasses.Json.Token

set_option autoImplicit false

namespace SchemaClasses.Json

inductive Document where
  | null
  | bool (b : Bool)
  | number (literal : NumberLiteral)
  | string (parts : List StringPart)
  | array (items : List Document)
  | object (fields : List (List StringPart × Document))

namespace Document

inductive Frame where
  | array (items : List Document)
  | object (fields : List (List StringPart × Document)) (key : List StringPart)

inductive Assembly where
  | value (frames : List Frame) (mayClose : Bool)
  | key (frames : List Frame) (fields : List (List StringPart × Document)) (mayClose : Bool)
  | colon (frames : List Frame) (fields : List (List StringPart × Document)) (key : List StringPart)
  | separator (frame : Frame) (frames : List Frame)
  | done (document : Document)

def complete (document : Document) : List Frame → Assembly
  | [] => .done document
  | .array items :: frames => .separator (.array (document :: items)) frames
  | .object fields key :: frames => .separator (.object ((key, document) :: fields) key) frames

def step? (assembly : Assembly) (token : Token) : Option Assembly :=
  match assembly, token with
  | .value frames _, .null => some (complete .null frames)
  | .value frames _, .bool b => some (complete (.bool b) frames)
  | .value frames _, .number literal => some (complete (.number literal) frames)
  | .value frames _, .string parts => some (complete (.string parts) frames)
  | .value frames _, .openBracket => some (.value (.array [] :: frames) true)
  | .value frames _, .openBrace => some (.key frames [] true)
  | .value (.array items :: frames) true, .closeBracket =>
    some (complete (.array items.reverse) frames)
  | .key frames fields _, .string parts => some (.colon frames fields parts)
  | .key frames fields true, .closeBrace => some (complete (.object fields.reverse) frames)
  | .colon frames fields key, .colon => some (.value (.object fields key :: frames) false)
  | .separator (.array items) frames, .comma => some (.value (.array items :: frames) false)
  | .separator (.array items) frames, .closeBracket => some (complete (.array items.reverse) frames)
  | .separator (.object fields _) frames, .comma => some (.key frames fields false)
  | .separator (.object fields _) frames, .closeBrace =>
    some (complete (.object fields.reverse) frames)
  | _, _ => none

def ofTokens? (tokens : List Token) : Option Document :=
  match tokens.foldlM step? (.value [] false) with
  | some (.done document) => some document
  | _ => none

def ofText? (s : Text) : Option Document := (Token.ofText? s).bind ofTokens?

end Document

namespace StringPart

def isHigh (n : Nat) : Bool := 0xD800 ≤ n && n ≤ 0xDBFF

def isLow (n : Nat) : Bool := 0xDC00 ≤ n && n ≤ 0xDFFF

def decode? : List StringPart → Option Text
  | [] => some []
  | .char c :: rest => (decode? rest).map (c :: ·)
  | .unit n :: rest =>
    if isHigh n then
      match rest with
      | .unit m :: rest =>
        if isLow m then
          (decode? rest).map (Char.ofNat (0x10000 + (n - 0xD800) * 0x400 + (m - 0xDC00)) :: ·)
        else none
      | _ => none
    else if isLow n then none
    else (decode? rest).map (Char.ofNat n :: ·)

end StringPart

end SchemaClasses.Json
