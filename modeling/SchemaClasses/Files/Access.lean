import SchemaClasses.Output.Store

set_option autoImplicit false

namespace SchemaClasses

structure FileAccess (m : Type → Type) where
  pathExists : Path → m Bool
  createDirectories : Path → ExceptT Cause m Unit
  readText : Path → ExceptT Cause m Text
  writeText : Path → Text → ExceptT Cause m Unit

namespace FileAccess

variable {m : Type → Type} [Monad m]

def attempt {α : Type} (activity : Activity) (action : ExceptT Cause m α) : ExceptT Failure m α :=
  ExceptT.adapt (fun cause => ⟨[activity], cause⟩) action

def read (files : FileAccess m) (path : Path) : ExceptT Failure m Text :=
  attempt (.readFile path) (files.readText path)

def ensureDirectory (files : FileAccess m) (path : Path) : ExceptT Failure m Unit := do
  if path.text = [] then return
  unless ← files.pathExists path do
    attempt (.createDirectory path) (files.createDirectories path)

def writer (files : FileAccess m) : Writer m := fun path content => do
  if let some directory := path.parent? then files.ensureDirectory directory
  attempt (.writeFile path) (files.writeText path content)

end FileAccess

end SchemaClasses
