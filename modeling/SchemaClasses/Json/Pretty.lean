import SchemaClasses.Json.Value

set_option autoImplicit false

namespace SchemaClasses.Json

namespace Value

def hexDigit (n : Nat) : Char := Nat.digitChar n

def escapeChar (c : Char) : Text :=
  if c = '"' then "\\\"".toList
  else if c = '\\' then "\\\\".toList
  else if c = '\x08' then "\\b".toList
  else if c = '\x0c' then "\\f".toList
  else if c = '\n' then "\\n".toList
  else if c = '\r' then "\\r".toList
  else if c = '\t' then "\\t".toList
  else if c.toNat < 32 then "\\u00".toList ++ [hexDigit (c.toNat / 16), hexDigit (c.toNat % 16)]
  else [c]

def quoted (s : Text) : Text := '"' :: s.flatMap escapeChar ++ ['"']

def newLine (depth : Nat) : Text := '\n' :: List.replicate (2 * depth) ' '

mutual

def pretty (depth : Nat) : Value → Text
  | .null => "null".toList
  | .bool true => "true".toList
  | .bool false => "false".toList
  | .number n => n.render
  | .string s => quoted s
  | .array [] => "[]".toList
  | .array (item :: items) =>
    '[' :: prettyItems (depth + 1) (item :: items) ++ newLine depth ++ [']']
  | .object [] => "\x7b\x7d".toList
  | .object (field :: fields) =>
    '\x7b' :: prettyFields (depth + 1) (field :: fields) ++ newLine depth ++ ['\x7d']

def prettyItems (depth : Nat) : List Value → Text
  | [] => []
  | [item] => newLine depth ++ pretty depth item
  | item :: next :: items =>
    newLine depth ++ pretty depth item ++ ',' :: prettyItems depth (next :: items)

def prettyFields (depth : Nat) : List (Text × Value) → Text
  | [] => []
  | [(key, value)] => newLine depth ++ quoted key ++ ": ".toList ++ pretty depth value
  | (key, value) :: next :: fields =>
    newLine depth ++ quoted key ++ ": ".toList ++ pretty depth value
      ++ ',' :: prettyFields depth (next :: fields)

end

end Value

end SchemaClasses.Json
