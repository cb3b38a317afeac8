import SchemaClasses.Text.Characters

set_option autoImplicit false

namespace SchemaClasses

structure Path where
  text : Text
deriving DecidableEq

inductive Component where
  | root
  | current
  | parent
  | name (text : Text)
deriving DecidableEq

namespace Component

def key : Component → List Nat
  | root => [0]
  | current => [1]
  | parent => [2]
  | name text => 3 :: text.map Char.toNat

def ofPiece? (piece : Text) : Option Component :=
  if piece = [] ∨ piece = ['.'] then none
  else if piece = ['.', '.'] then some parent
  else some (name piece)

end Component

namespace Path

def ofString (s : String) : Path := ⟨s.toList⟩

def isAbsolute (path : Path) : Bool := path.text.head? == some '/'

def anchor (path : Path) : Text × Text :=
  match path.text with
  | ['.'] => (['.'], [])
  | '.' :: '/' :: rest => (['.'], '/' :: rest)
  | '/' :: rest => (['/'], rest)
  | text => ([], text)

def anchorComponent : Text → List Component
  | ['/'] => [.root]
  | ['.'] => [.current]
  | _ => []

def components (path : Path) : List Component :=
  anchorComponent path.anchor.1 ++ (Text.splitOn '/' path.anchor.2).filterMap Component.ofPiece?

def compare (p q : Path) : Ordering :=
  Ord.compare (p.components.map Component.key) (q.components.map Component.key)

def dropIdle : List Text → List Text :=
  List.dropWhile fun piece => piece == [] || piece == ['.']

def parent? (path : Path) : Option Path :=
  match dropIdle (Text.splitOn '/' path.anchor.2).reverse with
  | [] => if path.anchor.1 = ['.'] then some ⟨[]⟩ else none
  | _ :: before => some ⟨path.anchor.1 ++ Text.joinWith '/' (dropIdle before).reverse⟩

def fileName? (path : Path) : Option Text :=
  match path.components.getLast? with
  | some (.name text) => some text
  | _ => none

def cutExtension (name : Text) : Text × Option Text :=
  match name.reverse.dropWhile (· ≠ '.') with
  | [] => (name, none)
  | [_] => (name, none)
  | _ :: stem => (stem.reverse, some (Text.afterLast '.' name))

def stem? (path : Path) : Option Text := path.fileName?.map fun name => (cutExtension name).1

def extension? (path : Path) : Option Text := path.fileName?.bind fun name => (cutExtension name).2

def hasExtension (path : Path) (extension : Text) : Bool :=
  match path.extension? with
  | some found => Text.sameAscii found extension
  | none => false

def join (base path : Path) : Path :=
  if path.isAbsolute then path
  else if base.text.getLast?.all (· == '/') then ⟨base.text ++ path.text⟩
  else ⟨base.text ++ '/' :: path.text⟩

end Path

end SchemaClasses
