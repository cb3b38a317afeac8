import SchemaClasses.Text.Characters

set_option autoImplicit false

namespace SchemaClasses.Json

inductive StringPart where
  | char (c : Char)
  | unit (n : Nat)
deriving DecidableEq

structure NumberLiteral where
  negative : Bool
  whole : Text
  fraction : Text
  exponent : Option (Bool × Text)
deriving DecidableEq

inductive Token where
  | openBrace
  | closeBrace
  | openBracket
  | closeBracket
  | colon
  | comma
  | null
  | bool (b : Bool)
  | number (literal : NumberLiteral)
  | string (parts : List StringPart)
deriving DecidableEq

namespace NumberLiteral

def isPart (c : Char) : Bool :=
  c.isDigit || c == '-' || c == '+' || c == '.' || c == 'e' || c == 'E'

def fraction? : Text → Option (Text × Text)
  | '.' :: rest => if rest.takeWhile Char.isDigit = [] then none else some (rest.span Char.isDigit)
  | rest => some ([], rest)

def exponentDigits? (negative : Bool) (digits : Text) : Option (Option (Bool × Text)) :=
  if digits ≠ [] ∧ digits.all Char.isDigit then some (some (negative, digits)) else none

def exponent? : Text → Option (Option (Bool × Text))
  | [] => some none
  | e :: rest =>
    if e = 'e' ∨ e = 'E' then
      match rest with
      | '-' :: digits => exponentDigits? true digits
      | '+' :: digits => exponentDigits? false digits
      | digits => exponentDigits? false digits
    else none

def ofUnsigned? (negative : Bool) (s : Text) : Option NumberLiteral :=
  let (whole, rest) := s.span Char.isDigit
  -- A whole part of several digits does not begin with a zero.
  if whole = [] ∨ (whole.head? = some '0' ∧ whole ≠ ['0']) then none
  else do
    let (fraction, rest) ← fraction? rest
    let exponent ← exponent? rest
    return ⟨negative, whole, fraction, exponent⟩

def ofText? : Text → Option NumberLiteral
  | '-' :: rest => ofUnsigned? true rest
  | rest => ofUnsigned? false rest

end NumberLiteral

namespace StringPart

def simpleEscape? (c : Char) : Option Char :=
  match c with
  | '"' => some '"'
  | '\\' => some '\\'
  | '/' => some '/'
  | 'b' => some '\x08'
  | 'f' => some '\x0c'
  | 'n' => some '\n'
  | 'r' => some '\r'
  | 't' => some '\t'
  | _ => none

def ofRaw? : Text → Option (List StringPart)
  | [] => some []
  | '\\' :: 'u' :: a :: b :: c :: d :: rest => do
    return .unit (← Text.hexValue? [a, b, c, d]) :: (← ofRaw? rest)
  | '\\' :: c :: rest => do return .char (← simpleEscape? c) :: (← ofRaw? rest)
  | ['\\'] => none
  | c :: rest => do return .char c :: (← ofRaw? rest)

end StringPart

namespace Token

inductive Begun where
  | nothing
  | word (read : Text)
  | number (read : Text)
  | string (read : Text) (escaped : Bool)

def ofWord? (word : Text) : Option Token :=
  if word = "null".toList then some null
  else if word = "true".toList then some (bool true)
  else if word = "false".toList then some (bool false)
  else none

def ofPunctuation? : Char → Option Token
  | '\x7b' => some openBrace
  | '\x7d' => some closeBrace
  | '[' => some openBracket
  | ']' => some closeBracket
  | ':' => some colon
  | ',' => some comma
  | _ => none

def isSpace (c : Char) : Bool := c == ' ' || c == '\t' || c == '\n' || c == '\r'

def start? (c : Char) : Option (List Token × Begun) :=
  if isSpace c then some ([], .nothing)
  else match ofPunctuation? c with
    | some token => some ([token], .nothing)
    | none =>
      if c = '"' then some ([], .string [] false)
      else if NumberLiteral.isPart c then some ([], .number [c])
      else if c.isLower then some ([], .word [c])
      else none

def finish? : Begun → Option (List Token)
  | .nothing => some []
  | .word read => (ofWord? read.reverse).map fun token => [token]
  | .number read => (NumberLiteral.ofText? read.reverse).map fun literal => [number literal]
  | .string _ _ => none

def step? (begun : Begun) (c : Char) : Option (List Token × Begun) :=
  match begun with
  | .string read true => some ([], .string (c :: read) false)
  | .string read false =>
    if c = '"' then (StringPart.ofRaw? read.reverse).map fun parts => ([string parts], .nothing)
    else if c = '\\' then some ([], .string (c :: read) true)
    else if c.toNat < 32 then none
    else some ([], .string (c :: read) false)
  | .number read => if NumberLiteral.isPart c then some ([], .number (c :: read)) else next begun
  | .word read => if c.isLower then some ([], .word (c :: read)) else next begun
  | .nothing => next begun
where
  next (begun : Begun) : Option (List Token × Begun) := do
    let ended ← finish? begun
    let (begun, rest) ← start? c
    return (ended ++ begun, rest)

def ofText? (s : Text) : Option (List Token) := do
  let (tokens, begun) ← s.foldlM (fun (tokens, begun) c => do
    let (more, begun) ← step? begun c
    return (more.reverse ++ tokens, begun)) (([], .nothing) : List Token × Begun)
  return tokens.reverse ++ (← finish? begun)

end Token

end SchemaClasses.Json
