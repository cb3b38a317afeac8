import SchemaClasses.Yaml.Scalar

set_option autoImplicit false

/-!
The tokens of a YAML text. Indentation opens and closes blocks. That a token begins a key shows only
at the colon behind it, so each token that may begin one is remembered until then; such a key stands
on one line and is not too long.
-/

namespace SchemaClasses.Yaml

inductive Token where
  | documentStart
  | documentEnd
  | blockSequenceStart
  | blockMappingStart
  | blockEnd
  | flowSequenceStart
  | flowSequenceEnd
  | flowMappingStart
  | flowMappingEnd
  | blockEntry
  | flowEntry
  | key
  | value
  | scalar (plain : Bool) (text : Text)
deriving DecidableEq

structure KeyCandidate where
  pos : Position
  tokensBefore : Nat
  required : Bool

structure Scanner where
  cursor : Cursor
  indents : List Nat
  candidate : Option KeyCandidate
  outerCandidates : List (Option KeyCandidate)
  keyAllowed : Bool
  tokens : List Token

namespace Scanner

def start (s : Text) : Scanner := ⟨Cursor.start s, [], none, [], true, []⟩

def inFlow (s : Scanner) : Bool := !s.outerCandidates.isEmpty

def column (s : Scanner) : Nat := s.cursor.pos.column

def margin (s : Scanner) : Nat :=
  match s.indents with
  | [] => 0
  | indent :: _ => indent + 1

def emit (s : Scanner) (token : Token) : Scanner := { s with tokens := token :: s.tokens }

def take (s : Scanner) (count : Nat) (token : Token) : Scanner :=
  { s.emit token with cursor := s.cursor.advance count }

def insertAt (tokensBefore : Nat) (token : Token) (tokens : List Token) : List Token :=
  let count := tokens.length - tokensBefore
  tokens.take count ++ token :: tokens.drop count

def withKeyAllowed (allowed : Bool) (s : Scanner) : Scanner := { s with keyAllowed := allowed }

def skip (inFlow : Bool) : (inComment keyAllowed : Bool) → Position → Text → Bool × Cursor
  | _, allowed, pos, [] => (allowed, ⟨pos, []⟩)
  | inComment, allowed, pos, c :: rest =>
    if isBreak c then skip inFlow false (allowed || !inFlow) (pos.after c) rest
    else if inComment then skip inFlow true allowed (pos.after c) rest
    else if c = ' ' ∨ (c = '\t' ∧ (inFlow || !allowed)) then
      skip inFlow false allowed (pos.after c) rest
    else if c = '#' then skip inFlow true allowed (pos.after c) rest
    else (allowed, ⟨pos, c :: rest⟩)

def skipBlanks (s : Scanner) : Scanner :=
  let (allowed, cursor) := skip s.inFlow false s.keyAllowed s.cursor.pos s.cursor.rest
  { s with cursor := cursor, keyAllowed := allowed }

def longestKey : Nat := 1024

def keepFresh? (pos : Position) (candidate : Option KeyCandidate) : Option (Option KeyCandidate) :=
  match candidate with
  | none => some none
  | some c =>
    if c.pos.line = pos.line ∧ pos.column ≤ c.pos.column + longestKey then some (some c)
    else if c.required then none
    else some none

def dropStale? (s : Scanner) : Option Scanner := do
  let candidate ← keepFresh? s.cursor.pos s.candidate
  let outer ← s.outerCandidates.mapM (keepFresh? s.cursor.pos)
  return { s with candidate := candidate, outerCandidates := outer }

def dropCandidate? (s : Scanner) : Option Scanner :=
  if s.candidate.any KeyCandidate.required then none else some { s with candidate := none }

def noteKey? (s : Scanner) : Option Scanner :=
  if s.keyAllowed then do
    let s ← s.dropCandidate?
    let required := !s.inFlow && s.indents.head? == some s.column
    return { s with candidate := some ⟨s.cursor.pos, s.tokens.length, required⟩ }
  else some s

def closeWhile (p : Nat → Bool) (s : Scanner) : Scanner :=
  if s.inFlow then s
  else { s with
    indents := s.indents.dropWhile p
    tokens := (s.indents.takeWhile p).map (fun _ => .blockEnd) ++ s.tokens }

def openBlock (column : Nat) (tokensBefore : Nat) (token : Token) (s : Scanner) : Scanner :=
  if s.inFlow = false ∧ s.margin ≤ column then
    { s with indents := column :: s.indents, tokens := insertAt tokensBefore token s.tokens }
  else s

def openBlockHere (token : Token) (s : Scanner) : Scanner :=
  s.openBlock s.column s.tokens.length token

def documentMark? (token : Token) (s : Scanner) : Option Scanner := do
  let s ← (s.closeWhile fun _ => true).dropCandidate?
  return (s.take 3 token).withKeyAllowed false

def openFlow? (token : Token) (s : Scanner) : Option Scanner := do
  let s ← s.noteKey?
  return { s.take 1 token with
    candidate := none
    outerCandidates := s.candidate :: s.outerCandidates
    keyAllowed := true }

def closeFlow? (token : Token) (s : Scanner) : Option Scanner := do
  let s ← s.dropCandidate?
  return { s.take 1 token with
    candidate := s.outerCandidates.head?.getD none
    outerCandidates := s.outerCandidates.tail
    keyAllowed := false }

def flowEntry? (s : Scanner) : Option Scanner := do
  let s ← s.dropCandidate?
  return (s.take 1 .flowEntry).withKeyAllowed true

def blockEntry? (s : Scanner) : Option Scanner :=
  if s.inFlow || !s.keyAllowed then none
  else do
    let s ← (s.openBlockHere .blockSequenceStart).dropCandidate?
    return (s.take 1 .blockEntry).withKeyAllowed true

def key? (s : Scanner) : Option Scanner :=
  if s.inFlow = false ∧ s.keyAllowed = false then none
  else do
    let s ← (s.openBlockHere .blockMappingStart).dropCandidate?
    return (s.take 1 .key).withKeyAllowed (!s.inFlow)

def value? (s : Scanner) : Option Scanner :=
  match s.candidate with
  -- The key began at the candidate, and with it perhaps a block.
  | some c =>
    let s := { s with candidate := none, tokens := insertAt c.tokensBefore .key s.tokens }
    let s := s.openBlock c.pos.column c.tokensBefore .blockMappingStart
    some ((s.take 1 .value).withKeyAllowed false)
  -- A question mark began the key, or it is empty.
  | none =>
    if s.inFlow = false ∧ s.keyAllowed = false then none
    else some (((s.openBlockHere .blockMappingStart).take 1 .value).withKeyAllowed (!s.inFlow))

def blockScalar? (folded : Bool) (s : Scanner) : Option Scanner := do
  let s ← s.dropCandidate?
  let (text, cursor) ← Scalar.ofBlock? folded s.indents.head? (s.cursor.advance 1)
  return { s.emit (.scalar false text) with cursor := cursor, keyAllowed := true }

def quoted? (double : Bool) (s : Scanner) : Option Scanner := do
  let s ← s.noteKey?
  let inside := s.cursor.advance 1
  let (text, cursor) ←
    if double then Scalar.doubleQuoted? 0 0 [] .none inside.pos inside.rest
    else Scalar.singleQuoted? [] .none inside.pos inside.rest
  return { s.emit (.scalar false text) with cursor := cursor, keyAllowed := false }

def plain? (s : Scanner) : Option Scanner := do
  let s ← s.noteKey?
  let (text, spansLines, cursor) ←
    Scalar.plain? s.inFlow s.margin [] .none s.cursor.pos s.cursor.rest
  return { s.emit (.scalar true text) with cursor := cursor, keyAllowed := spansLines }

def isIndicator (c : Char) : Bool :=
  c ∈ ['-', '?', ':', ',', '[', ']', '\x7b', '\x7d', '#', '&', '*', '!', '|', '>', '\'', '"', '%',
    '@', '\x60']

def startsPlain (inFlow : Bool) (c : Char) : Bool :=
  !(isSpace c || isIndicator c) || c == '-' || (!inFlow && (c == '?' || c == ':'))

def token? (c : Char) (rest : Text) (s : Scanner) : Option Scanner :=
  if isMarker startMark s.cursor.pos (c :: rest) then s.documentMark? .documentStart
  else if isMarker endMark s.cursor.pos (c :: rest) then s.documentMark? .documentEnd
  else if c = '[' then s.openFlow? .flowSequenceStart
  else if c = '\x7b' then s.openFlow? .flowMappingStart
  else if c = ']' then s.closeFlow? .flowSequenceEnd
  else if c = '\x7d' then s.closeFlow? .flowMappingEnd
  else if c = ',' then s.flowEntry?
  else if c = '-' ∧ endsWord rest then s.blockEntry?
  else if c = '?' ∧ (s.inFlow || endsWord rest) then s.key?
  else if c = ':' ∧ (s.inFlow || endsWord rest) then s.value?
  else if c = '|' ∧ s.inFlow = false then s.blockScalar? false
  else if c = '>' ∧ s.inFlow = false then s.blockScalar? true
  else if c = '\'' then s.quoted? false
  else if c = '"' then s.quoted? true
  else if startsPlain s.inFlow c then s.plain?
  else none

-- Each step takes at least one character, so the number needs to exceed the length of the text.
def scan? : Nat → Scanner → Option (List Token)
  | 0, _ => none
  | steps + 1, s => do
    let s ← s.skipBlanks.dropStale?
    let s := s.closeWhile fun indent => decide (s.column < indent)
    match s.cursor.rest with
    | [] =>
      let s ← (s.closeWhile fun _ => true).dropCandidate?
      return s.tokens.reverse
    | c :: rest => scan? steps (← s.token? c rest)

end Scanner

def Token.ofText? (s : Text) : Option (List Token) :=
  if s.all isAllowed then Scanner.scan? (s.length + 1) (.start s) else none

end SchemaClasses.Yaml
