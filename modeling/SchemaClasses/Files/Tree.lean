import SchemaClasses.Files.Access

set_option autoImplicit false

/-!
A tree of files as a value. An entry stands at the names that lead to it from the root, and the root
is a directory that is always there. A path is followed piece by piece from the root or from the
working directory, and only a directory can be left along a piece.
-/

namespace SchemaClasses

abbrev Location := List Text

inductive FileContent where
  | text (text : Text)
  | bytes (bytes : List UInt8)
deriving DecidableEq

inductive FileEntry where
  | directory
  | file (content : FileContent)
deriving DecidableEq

structure FileTree where
  workingDirectory : Location
  entries : List (Location × FileEntry)
deriving DecidableEq

namespace FileTree

def entryAt? (tree : FileTree) : Location → Option FileEntry
  | [] => some .directory
  | location => tree.entries.lookup location

def putEntry (location : Location) (entry : FileEntry) :
    List (Location × FileEntry) → List (Location × FileEntry)
  | [] => [(location, entry)]
  | (l, e) :: rest =>
    if l = location then (l, entry) :: rest else (l, e) :: putEntry location entry rest

def put (tree : FileTree) (location : Location) (entry : FileEntry) : FileTree :=
  { tree with entries := putEntry location entry tree.entries }

theorem lookup_putEntry (location other : Location) (entry : FileEntry)
    (entries : List (Location × FileEntry)) :
    (putEntry location entry entries).lookup other
      = if other = location then some entry else entries.lookup other := by
  induction entries with
  | nil =>
    rw [putEntry, List.lookup_cons]
    by_cases h : other = location
    · simp [h]
    · simp [h, beq_false_of_ne h]
  | cons head rest ih =>
    obtain ⟨l, e⟩ := head
    by_cases hl : l = location
    · rw [putEntry, if_pos hl, List.lookup_cons, List.lookup_cons]
      by_cases h : other = location
      · simp [h, hl]
      · simp [h, hl, beq_false_of_ne h]
    · rw [putEntry, if_neg hl, List.lookup_cons, List.lookup_cons, ih]
      by_cases h : other = l
      · simp [h, hl]
      · simp [beq_false_of_ne h]

theorem entryAt?_put {tree : FileTree} {location : Location} (h : location ≠ []) (entry : FileEntry)
    (other : Location) :
    (tree.put location entry).entryAt? other
      = if other = location then some entry else tree.entryAt? other := by
  cases other with
  | nil => simp [entryAt?, Ne.symm h]
  | cons name names => simp [entryAt?, put, lookup_putEntry]

def step (tree : FileTree) (location : Location) (piece : Text) : Except Cause Location :=
  match tree.entryAt? location with
  | none => .error .notFound
  | some (.file _) => .error .notDirectory
  | some .directory =>
    if piece = [] ∨ piece = ['.'] then .ok location
    else if piece = ['.', '.'] then .ok location.dropLast
    else .ok (location ++ [piece])

def locate (tree : FileTree) (path : Path) : Except Cause Location :=
  if path.text = [] then .error .notFound
  else
    (Text.splitOn '/' path.text).foldlM tree.step
      (if path.isAbsolute then [] else tree.workingDirectory)

def find (tree : FileTree) (path : Path) : Except Cause FileEntry := do
  match tree.entryAt? (← tree.locate path) with
  | some entry => return entry
  | none => throw .notFound

def pathExists (tree : FileTree) (path : Path) : Bool := (tree.find path).isOk

def isDirectory (tree : FileTree) (path : Path) : Bool :=
  match tree.find path with
  | .ok .directory => true
  | _ => false

def read (tree : FileTree) (path : Path) : Except Cause Text := do
  match ← tree.find path with
  | .directory => throw .isDirectory
  | .file (.text text) => return text
  | .file (.bytes _) => throw .invalidText

def locateNew (tree : FileTree) (path : Path) : Except Cause Location :=
  if path.text = [] then .error .notFound
  else
    match Text.dropEndWhile (· == '/') path.text with
    | [] => .ok []
    | text => tree.locate ⟨text⟩

def write (tree : FileTree) (path : Path) (text : Text) : Except Cause FileTree := do
  let location ← tree.locateNew path
  -- A slash at the end of a path asks for a directory.
  if path.text.getLast? = some '/' ∨ tree.entryAt? location = some .directory then
    throw .isDirectory
  else return tree.put location (.file (.text text))

def createDirectory (tree : FileTree) (path : Path) : Except Cause FileTree := do
  let location ← tree.locateNew path
  if (tree.entryAt? location).isSome then throw .alreadyExists
  else return tree.put location .directory

def ensureOne (tree : FileTree) (path : Path) : Except Cause Unit × FileTree :=
  match tree.createDirectory path with
  | .ok tree => (.ok (), tree)
  | .error cause => if tree.isDirectory path then (.ok (), tree) else (.error cause, tree)

-- Makes a directory, after those it stands in; the number bounds how many of them there are.
def ensureAll : Nat → FileTree → Path → Except Cause Unit × FileTree
  | above, tree, path =>
    if path.text = [] then (.ok (), tree)
    else
      match tree.ensureOne path with
      | (.error .notFound, tree) =>
        match above, path.parent? with
        | above + 1, some parent =>
          match ensureAll above tree parent with
          | (.ok _, tree) => tree.ensureOne path
          | failed => failed
        | _, _ => (.error .notFound, tree)
      | result => result

def access : FileAccess (StateM FileTree) where
  pathExists path := return (← get).pathExists path
  createDirectories path := ExceptT.mk fun tree => ensureAll path.components.length tree path
  readText path := ExceptT.mk (return (← get).read path)
  writeText path text := ExceptT.mk fun tree =>
    match tree.write path text with
    | .ok tree => (.ok (), tree)
    | .error cause => (.error cause, tree)

end FileTree

end SchemaClasses
