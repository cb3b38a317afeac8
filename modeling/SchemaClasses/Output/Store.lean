import SchemaClasses.Failure

set_option autoImplicit false

namespace SchemaClasses

abbrev Writer (m : Type → Type) := Path → Text → ExceptT Failure m Unit

structure Artifact where
  path : Path
  content : Text
deriving DecidableEq

structure Store where
  files : List Artifact
deriving DecidableEq

namespace Store

def empty : Store := ⟨[]⟩

def insert (path : Path) (content : Text) : List Artifact → List Artifact
  | [] => [⟨path, content⟩]
  | file :: files =>
    match Path.compare path file.path with
    | .lt => ⟨path, content⟩ :: file :: files
    | .eq => { file with content := content } :: files
    | .gt => file :: insert path content files

def put (store : Store) (path : Path) (content : Text) : Store := ⟨insert path content store.files⟩

def get? (store : Store) (path : Path) : Option Text :=
  (store.files.find? fun file => file.path.components == path.components).map Artifact.content

def size (store : Store) : Nat := store.files.length

def writer : Writer (StateM Store) := fun path content => modify fun store => store.put path content

end Store

def Writer.limited {σ : Type} (inner : Writer (StateM σ)) : Writer (StateM (Nat × σ)) :=
  fun path content => ExceptT.mk fun (left, state) =>
    match left with
    | 0 => (.error ⟨[], .storageFull⟩, (0, state))
    | left + 1 => let (result, state) := inner path content state; (result, (left, state))

end SchemaClasses
