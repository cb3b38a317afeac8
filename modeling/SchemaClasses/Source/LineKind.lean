import SchemaClasses.Text.Characters

set_option autoImplicit false

namespace SchemaClasses

inductive MemberShape where
  | field
  | property
deriving DecidableEq

inductive LineKind where
  | classHeader (name : Text)
  | openBrace
  | closeBrace
  | member (name : Text) (shape : MemberShape)
  | unrecognizedMember
  | other
deriving DecidableEq

namespace LineKind

open Text

def dropBlankThen? (pattern s : Text) : Option Text := dropStartFolded? pattern (trimStart s)

def propertyTail (s : Text) : Bool :=
  match (dropBlankThen? ['{'] s).bind fun s => (dropBlankThen? "get;".toList s).bind fun s =>
      (dropBlankThen? "set;".toList s).bind fun s => dropBlankThen? ['}'] s with
  | some rest => decide ('\n' ∉ rest)
  | none => false

def fieldTail (s : Text) : Bool := trimStart s == [] || trimStart s == [';']

def nameBefore? (tail : Text → Bool) : Text → Option Text
  | [] => none
  | c :: rest =>
    if isWordStart c && tail (rest.dropWhile isWordPart) then some (c :: rest.takeWhile isWordPart)
    else none

def nameAfterType? (tail : Text → Bool) : Text → Option Text
  | [] => none
  | c :: rest =>
    if c = '\n' then none
    else if rest.head?.any isBlank then
      nameBefore? tail (trimStart rest) <|> nameAfterType? tail rest
    else nameAfterType? tail rest

def blankType (blanks : Text) : Bool := (blanks.drop 1).dropLast.any (· ≠ '\n')

def memberName? (tail : Text → Bool) (line : Text) : Option Text :=
  match dropStartFolded? "public".toList line with
  | none => none
  | some after =>
    if indentOf after = [] then none
    else nameAfterType? tail (trimStart after) <|>
      if blankType (indentOf after) then nameBefore? tail (trimStart after) else none

def headerName? (line : Text) : Option Text :=
  match dropStartFolded? "public partial class".toList line with
  | none => none
  | some after =>
    if indentOf after = [] ∨ '\n' ∈ trimStart after then none
    else some ((trimStart after).takeWhile fun c => !isBlank c)

def isPublic (line : Text) : Bool :=
  match dropStartFolded? "public".toList line with
  | some after => after.head?.any isBlank
  | none => false

def ofTrimmed (line : Text) : LineKind :=
  if line = ['{'] then openBrace
  else if line = ['}'] then closeBrace
  else match headerName? line with
  | some name => classHeader name
  | none => match memberName? propertyTail line with
    | some name => member name .property
    | none => match memberName? fieldTail line with
      | some name => member name .field
      | none => if isPublic line then unrecognizedMember else other

def ofLine (line : Text) : LineKind := ofTrimmed (trim line)

end LineKind

end SchemaClasses
