import SchemaClasses.Text.Basic

set_option autoImplicit false

namespace SchemaClasses

/-- A line without its terminator; a carriage return stays part of it. -/
structure SourceLine where
  number : Nat
  text : Text
deriving DecidableEq

namespace SourceLine

def numbered (first : Nat) : List Text → List SourceLine
  | [] => []
  | text :: rest => ⟨first, text⟩ :: numbered (first + 1) rest

def split (source : Text) : List SourceLine := numbered 1 (Text.splitOn '\n' source)

def join (texts : List Text) : Text := Text.joinWith '\n' texts

@[simp] theorem map_text_numbered (first : Nat) (texts : List Text) :
    (numbered first texts).map SourceLine.text = texts := by
  induction texts generalizing first with
  | nil => rfl
  | cons text rest ih => simp [numbered, ih]

theorem length_split (source : Text) :
    (split source).length = (Text.splitOn '\n' source).length := by
  rw [← List.length_map SourceLine.text, split, map_text_numbered]

end SourceLine

end SchemaClasses
