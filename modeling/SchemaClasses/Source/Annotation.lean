import SchemaClasses.Text.Basic

set_option autoImplicit false

/-!
Annotation lines and their removal. A line is an annotation for a marker when it holds a bracket,
the marker right behind it, and a closing bracket at its end. Only lines that are terminated are
removed, so the last line of a text stays. A marker of several lines spans as many lines.
-/

namespace SchemaClasses.Annotation

def dropReturn (line : Text) : Text :=
  match line.reverse with
  | '\r' :: before => before.reverse
  | _ => line

def beforeClosing? (line : Text) : Option Text :=
  match (dropReturn line).reverse with
  | ']' :: before => some before.reverse
  | _ => none

def marks (marker line : Text) : Bool :=
  match beforeClosing? line with
  | some body => Text.contains ('[' :: marker) body
  | none => false

def endsWith (ending line : Text) : Bool := Text.startsWith ending.reverse line.reverse

def finishes (final line : Text) : Bool := ((Text.dropStart? final line).bind beforeClosing?).isSome

def marksRest : List Text → List Text → Bool
  | [], _ => true
  | next :: more, line :: lines =>
    if more = [] then finishes next line && lines != [] else next == line && marksRest more lines
  | _ :: _, [] => false

def startsAt (marker : List Text) (lines : List Text) : Bool :=
  match marker, lines with
  | [only], line :: _ :: _ => marks only line
  | first :: next :: more, line :: lines =>
    endsWith ('[' :: first) line && marksRest (next :: more) lines
  | _, _ => false

-- Lines left and annotations removed; the first number counts lines still to be passed.
def removeFrom (marker : List Text) : Nat → List Text → List Text × Nat
  | _, [] => ([], 0)
  | skip + 1, _ :: lines => removeFrom marker skip lines
  | 0, line :: lines =>
    if startsAt marker (line :: lines) then
      let (kept, removed) := removeFrom marker (marker.length - 1) lines
      (kept, removed + 1)
    else
      let (kept, removed) := removeFrom marker 0 lines
      (line :: kept, removed)

def removeAll : List Text → List Text → List Text × Nat
  | [], lines => (lines, 0)
  | marker :: markers, lines =>
    let (kept, removed) := removeFrom (Text.splitOn '\n' marker) 0 lines
    let (left, more) := removeAll markers kept
    (left, removed + more)

structure Stripped where
  text : Text
  removed : Nat
deriving DecidableEq

def strip (markers : List Text) (source : Text) : Stripped :=
  let (kept, removed) := removeAll markers (Text.splitOn '\n' source)
  ⟨Text.joinWith '\n' kept, removed⟩

end SchemaClasses.Annotation
