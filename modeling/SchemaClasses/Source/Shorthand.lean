import SchemaClasses.Naming
import SchemaClasses.Source.Line
import SchemaClasses.Text.Characters

set_option autoImplicit false

namespace SchemaClasses

structure Shorthand where
  modifier : Text
  typeName : Text
  name : Text
  default : Text
  indent : Text
deriving DecidableEq

structure ExpandedProperty where
  indent : Text
  modifier : Text
  typeName : Text
  publicName : Text
  fieldName : Text
  default : Text
deriving DecidableEq

inductive PropertyLayout where
  | inline
  | block
deriving DecidableEq

namespace Shorthand

open Text

def afterPart? (p : Char → Bool) (s : Text) : Option Text :=
  match takeRun? p s with
  | some (_, rest) => if rest.head?.any isBlank then some (trimStart rest) else none
  | none => none

def defaultTail (s : Text) : Bool :=
  match s.head?.any isBlank, trimStart s with
  | true, '=' :: rest => rest.getLast? == some ';' && decide ('\n' ∉ rest)
  | _, _ => false

def hasForm (line : Text) : Bool :=
  match ((afterPart? isLetter line).bind (afterPart? isTypePart)).bind (takeRun? isTypePart) with
  | some (_, rest) =>
    match dropStartFolded? " \x7b get; set; \x7d".toList rest with
    | some rest => defaultTail rest
    | none => false
  | none => false

def isConvertible (line : Text) : Bool := hasForm (trim line)

def trimSemicolons (s : Text) : Text := dropEndWhile (· == ';') (s.dropWhile (· == ';'))

def parse? (line : Text) : Option Shorthand :=
  if isConvertible line then
    -- Modifier, type and name are the pieces between single spaces.
    match splitOn ' ' (trim line), splitOnce? '=' (trim line) with
    | modifier :: typeName :: name :: _, some (_, value) =>
      some ⟨modifier, typeName, name, trim (trimSemicolons value),
        replaceAll "    ".toList ['\t'] (indentOf (trimEnd line))⟩
    | _, _ => none
  else none

def expand (property : Shorthand) : ExpandedProperty :=
  { indent := property.indent
    modifier := property.modifier
    typeName := property.typeName
    publicName := Naming.upperFirst property.name
    fieldName := Naming.lowerFirst property.name
    default := property.default }

end Shorthand

namespace ExpandedProperty

def fieldLine (property : ExpandedProperty) : Text :=
  property.indent ++ "private ".toList ++ property.typeName ++ ' ' :: property.fieldName
    ++ " = ".toList ++ property.default ++ [';']

def headLine (property : ExpandedProperty) : Text :=
  property.indent ++ property.modifier ++ ' ' :: property.typeName ++ ' ' :: property.publicName

def getter (property : ExpandedProperty) : Text :=
  "get \x7b return ".toList ++ property.fieldName ++ "; \x7d".toList

def setter (property : ExpandedProperty) : Text :=
  "set \x7b ".toList ++ property.fieldName ++ " = value; \x7d".toList

def lines (property : ExpandedProperty) : PropertyLayout → List Text
  | .inline =>
    [property.fieldLine,
      property.headLine ++ " \x7b ".toList ++ property.getter ++ ' ' :: property.setter
        ++ " \x7d".toList]
  | .block =>
    [property.fieldLine, property.headLine, property.indent ++ ['{'],
      property.indent ++ '\t' :: property.getter, property.indent ++ '\t' :: property.setter,
      property.indent ++ ['}']]

def render (property : ExpandedProperty) (layout : PropertyLayout) : Text :=
  SourceLine.join (property.lines layout)

end ExpandedProperty

namespace Shorthand

def expandLine? (layout : PropertyLayout) (line : Text) : Option Text :=
  (parse? line).map fun property => property.expand.render layout

structure Expansion where
  text : Text
  count : Nat
deriving DecidableEq

def expandLines (layout : PropertyLayout) (lines : List SourceLine) : Expansion :=
  ⟨SourceLine.join (lines.map fun line => (expandLine? layout line.text).getD line.text),
    lines.countP fun line => (expandLine? layout line.text).isSome⟩

end Shorthand

end SchemaClasses
