import SchemaClasses.Text.Characters

set_option autoImplicit false

namespace SchemaClasses.Toml

inductive Token where
  | newline
  | spaces (blanks : Text)
  | dot
  | equals
  | comma
  | openBracket
  | closeBracket
  | openBrace
  | closeBrace
  | word (text : Text)
  | string (multiline : Bool) (text : Text)
deriving DecidableEq

namespace Quoted

inductive Fold where
  | none
  | lineEnd
  | text

def ofHex? (digits : Text) : Option Char := (Text.hexValue? digits).bind Text.charOfNat?

def simpleEscape? (c : Char) : Option Char :=
  match c with
  | 'b' => some '\x08'
  | 't' => some '\t'
  | 'n' => some '\n'
  | 'f' => some '\x0c'
  | 'r' => some '\r'
  | '"' => some '"'
  | '\\' => some '\\'
  | _ => .none

def isSpace (c : Char) : Bool := c == ' ' || c == '\t'

def unescape? (multiline : Bool) : Fold → (raw : Text) → Option Text
  | .lineEnd, [] => .none
  | _, [] => some []
  | .lineEnd, c :: rest =>
    if c = '\n' then unescape? multiline .text rest
    else if isSpace c then unescape? multiline .lineEnd rest
    else .none
  | _, '\\' :: 'u' :: a :: b :: c :: d :: rest => do
    return (← ofHex? [a, b, c, d]) :: (← unescape? multiline .none rest)
  | _, '\\' :: 'U' :: a :: b :: c :: d :: e :: f :: g :: h :: rest => do
    return (← ofHex? [a, b, c, d, e, f, g, h]) :: (← unescape? multiline .none rest)
  | _, '\\' :: c :: rest =>
    match simpleEscape? c with
    | some value => (unescape? multiline .none rest).map (value :: ·)
    | .none =>
      if multiline = false then .none
      else if c = '\n' then unescape? multiline .text rest
      else if isSpace c then unescape? multiline .lineEnd rest
      else .none
  | fold, c :: rest =>
    match fold with
    | .text =>
      if isSpace c ∨ c = '\n' then unescape? multiline .text rest
      else (unescape? multiline .none rest).map (c :: ·)
    | _ => if c = '\\' then .none else (unescape? multiline .none rest).map (c :: ·)

def withoutFirstNewline : Text → Text
  | '\n' :: rest => rest
  | raw => raw

def value? (quote : Char) (multiline : Bool) (raw : Text) : Option Text :=
  let raw := if multiline then withoutFirstNewline raw else raw
  if quote = '"' then unescape? multiline .none raw else some raw

end Quoted

namespace Token

inductive Begun where
  | nothing
  | comment
  | spaces (read : Text)
  | word (read : Text)
  | quotes (quote : Char) (second : Bool)
  | string (quote : Char) (read : Text) (escaped : Bool)
  | multiline (quote : Char) (read : Text) (escaped : Bool) (quotes : Nat)

def isWordPart (c : Char) : Bool := c.isAlphanum || c == '_' || c == '-' || c == '+' || c == ':'

def ofPunctuation? : Char → Option Token
  | '\n' => some newline
  | '.' => some dot
  | '=' => some equals
  | ',' => some comma
  | '[' => some openBracket
  | ']' => some closeBracket
  | '\x7b' => some openBrace
  | '\x7d' => some closeBrace
  | _ => none

def start? (c : Char) : Option (List Token × Begun) :=
  match ofPunctuation? c with
  | some token => some ([token], .nothing)
  | none =>
    if c = '"' ∨ c = '\'' then some ([], .quotes c false)
    else if c = '#' then some ([], .comment)
    else if Quoted.isSpace c then some ([], .spaces [c])
    else if isWordPart c then some ([], .word [c])
    else none

def closeMultiline? (quote : Char) (read : Text) (quotes : Nat) : Option (List Token) :=
  -- Up to two quotes may stand in front of the three that close the string.
  if 3 ≤ quotes ∧ quotes ≤ 5 then
    (Quoted.value? quote true (List.replicate (quotes - 3) quote ++ read).reverse).map
      fun text => [string true text]
  else none

def finish? : Begun → Option (List Token)
  | .nothing => some []
  | .comment => some []
  | .spaces read => some [spaces read.reverse]
  | .word read => some [word read.reverse]
  | .quotes _ second => if second then some [string false []] else none
  | .string _ _ _ => none
  | .multiline quote read _ quotes => closeMultiline? quote read quotes

def step? (begun : Begun) (c : Char) : Option (List Token × Begun) :=
  match begun with
  | .nothing => next begun
  | .comment => if c = '\n' then next begun else some ([], .comment)
  | .spaces read => if Quoted.isSpace c then some ([], .spaces (c :: read)) else next begun
  | .word read => if isWordPart c then some ([], .word (c :: read)) else next begun
  | .quotes quote false => if c = quote then some ([], .quotes quote true) else inString quote []
  | .quotes quote true => if c = quote then some ([], .multiline quote [] false 0) else next begun
  | .string quote read true => some ([], .string quote (c :: read) false)
  | .string quote read false =>
    if c = quote then
      (Quoted.value? quote false read.reverse).map fun text => ([string false text], .nothing)
    else inString quote read
  | .multiline quote read true _ => some ([], .multiline quote (c :: read) false 0)
  | .multiline quote read false quotes =>
    if c = quote then some ([], .multiline quote read false (quotes + 1))
    else if 3 ≤ quotes then next begun
    else some ([], .multiline quote (c :: List.replicate quotes quote ++ read) (escapes quote) 0)
where
  escapes (quote : Char) : Bool := quote == '"' && c == '\\'
  inString (quote : Char) (read : Text) : Option (List Token × Begun) :=
    if c = '\n' then none else some ([], .string quote (c :: read) (escapes quote))
  next (begun : Begun) : Option (List Token × Begun) := do
    let ended ← finish? begun
    let (begun, rest) ← start? c
    return (ended ++ begun, rest)

def isAllowed (c : Char) : Bool := c == '\t' || c == '\n' || (0x20 ≤ c.toNat && c.toNat ≠ 0x7F)

def normalize (s : Text) : Text :=
  -- A mark of the byte order may stand in front.
  let s := if s.head? = some '\ufeff' then s.tail else s
  Text.replaceAll ['\r', '\n'] ['\n'] s

def ofText? (s : Text) : Option (List Token) := do
  guard ((normalize s).all isAllowed)
  let (tokens, begun) ← (normalize s).foldlM (fun (tokens, begun) c => do
    let (more, begun) ← step? begun c
    return (more.reverse ++ tokens, begun)) (([], .nothing) : List Token × Begun)
  return tokens.reverse ++ (← finish? begun)

end Token

end SchemaClasses.Toml
