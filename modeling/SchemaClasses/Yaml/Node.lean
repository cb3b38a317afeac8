import SchemaClasses.Yaml.Token

set_option autoImplicit false

namespace SchemaClasses.Yaml

inductive Node where
  | scalar (plain : Bool) (text : Text)
  | sequence (items : List Node)
  | mapping (entries : List (Node × Node))

namespace Node

def empty : Node := .scalar true []

def isNext (stops : List Token) (tokens : List Token) : Bool := tokens.head?.any (· ∈ stops)

mutual

def node? : (steps : Nat) → (block indentless : Bool) → List Token → Option (Node × List Token)
  | 0, _, _, _ => none
  | _, _, _, [] => none
  | steps + 1, block, indentless, token :: rest =>
    match token with
    | .scalar plain text => some (.scalar plain text, rest)
    | .flowSequenceStart => flowItems? steps true rest
    | .flowMappingStart => flowEntries? steps true rest
    | .blockSequenceStart => if block then blockItems? steps rest else none
    | .blockMappingStart => if block then blockEntries? steps rest else none
    | .blockEntry => if indentless then indentlessItems? steps (token :: rest) else none
    | _ => none

def nodeBefore? : (steps : Nat) → (stops : List Token) → (block indentless : Bool) → List Token →
    Option (Node × List Token)
  | 0, _, _, _, _ => none
  | steps + 1, stops, block, indentless, tokens =>
    if isNext stops tokens then some (empty, tokens) else node? steps block indentless tokens

def blockItems? : (steps : Nat) → List Token → Option (Node × List Token)
  | 0, _ => none
  | steps + 1, .blockEntry :: rest => do
    let (item, rest) ← nodeBefore? steps [.blockEntry, .blockEnd] true false rest
    match ← blockItems? steps rest with
    | (.sequence items, rest) => return (.sequence (item :: items), rest)
    | _ => none
  | _, .blockEnd :: rest => some (.sequence [], rest)
  | _, _ => none

def indentlessItems? : (steps : Nat) → List Token → Option (Node × List Token)
  | 0, _ => none
  | steps + 1, .blockEntry :: rest => do
    let (item, rest) ← nodeBefore? steps [.blockEntry, .key, .value, .blockEnd] true false rest
    match ← indentlessItems? steps rest with
    | (.sequence items, rest) => return (.sequence (item :: items), rest)
    | _ => none
  | _, tokens => some (.sequence [], tokens)

def value? : (steps : Nat) → (stops : List Token) → (block : Bool) → List Token →
    Option (Node × List Token)
  | 0, _, _, _ => none
  | steps + 1, stops, block, .value :: rest => nodeBefore? steps stops block block rest
  | _, _, _, tokens => some (empty, tokens)

def blockEntries? : (steps : Nat) → List Token → Option (Node × List Token)
  | 0, _ => none
  | steps + 1, .key :: rest => do
    let (key, rest) ← nodeBefore? steps [.key, .value, .blockEnd] true true rest
    let (value, rest) ← value? steps [.key, .value, .blockEnd] true rest
    match ← blockEntries? steps rest with
    | (.mapping entries, rest) => return (.mapping ((key, value) :: entries), rest)
    | _ => none
  | _, .blockEnd :: rest => some (.mapping [], rest)
  | _, _ => none

def flowItems? : (steps : Nat) → (first : Bool) → List Token → Option (Node × List Token)
  | 0, _, _ => none
  | _, _, .flowSequenceEnd :: rest => some (.sequence [], rest)
  | steps + 1, false, .flowEntry :: rest => flowItems? steps true rest
  | _, false, _ => none
  | steps + 1, true, .key :: rest => do
    let (key, rest) ←
      if isNext [.value, .flowEntry, .flowSequenceEnd] rest then some (empty, rest.tail)
      else node? steps false false rest
    let (value, rest) ← value? steps [.flowEntry, .flowSequenceEnd] false rest
    match ← flowItems? steps false rest with
    | (.sequence items, rest) => return (.sequence (.mapping [(key, value)] :: items), rest)
    | _ => none
  | steps + 1, true, tokens => do
    let (item, rest) ← node? steps false false tokens
    match ← flowItems? steps false rest with
    | (.sequence items, rest) => return (.sequence (item :: items), rest)
    | _ => none

def flowEntries? : (steps : Nat) → (first : Bool) → List Token → Option (Node × List Token)
  | 0, _, _ => none
  | _, _, .flowMappingEnd :: rest => some (.mapping [], rest)
  | steps + 1, false, .flowEntry :: rest => flowEntries? steps true rest
  | _, false, _ => none
  | steps + 1, true, .key :: rest => do
    let (key, rest) ← nodeBefore? steps [.value, .flowEntry, .flowMappingEnd] false false rest
    let (value, rest) ← value? steps [.flowEntry, .flowMappingEnd] false rest
    match ← flowEntries? steps false rest with
    | (.mapping entries, rest) => return (.mapping ((key, value) :: entries), rest)
    | _ => none
  | steps + 1, true, tokens => do
    let (key, rest) ← node? steps false false tokens
    match ← flowEntries? steps false rest with
    | (.mapping entries, rest) => return (.mapping ((key, empty) :: entries), rest)
    | _ => none

end

def ofTokens? (tokens : List Token) : Option Node := do
  -- Of any four calls in a row one takes a token.
  let steps := 4 * tokens.length + 4
  let (node, rest) ← match tokens with
    | [] => some (empty, [])
    | .documentStart :: rest =>
      if rest = [] ∨ isNext [.documentStart, .documentEnd] rest then some (empty, rest)
      else node? steps true false rest
    | tokens => node? steps true false tokens
  -- Behind the document only its end marks may stand.
  if rest.all (· == .documentEnd) then some node else none

def ofText? (s : Text) : Option Node := (Token.ofText? s).bind ofTokens?

end Node

end SchemaClasses.Yaml
