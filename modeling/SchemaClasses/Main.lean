import SchemaClasses.CommandLine.Run

set_option autoImplicit false

namespace SchemaClasses.Disk

def causeOf : IO.Error → Cause
  | .noFileOrDirectory .. => .notFound
  | .alreadyExists .. => .alreadyExists
  | .inappropriateType .. => .notDirectory
  | _ => .isDirectory

def attempt {α : Type} (action : IO α) : ExceptT Cause IO α :=
  ExceptT.mk (try return .ok (← action) catch error => return .error (causeOf error))

def succeeds {α : Type} (action : IO α) : IO Bool :=
  try
    discard action
    return true
  catch _ => return false

def name (path : Path) : String := String.ofList path.text

def access : FileAccess IO where
  pathExists path := succeeds (IO.FS.Handle.mk (name path) .read)
  createDirectories path := attempt (IO.FS.createDirAll (name path))
  readText path := ExceptT.mk do
    match ← (attempt (IO.FS.readBinFile (name path))).run with
    | .error cause => return .error cause
    | .ok bytes =>
      match String.fromUTF8? bytes with
      | some text => return .ok text.toList
      | none => return .error .invalidText
  writeText path text := attempt (IO.FS.writeFile (name path) (String.ofList text))

def home : IO Path := do
  let program : Path := .ofString (toString (← IO.appPath))
  return program.parent?.getD ⟨[]⟩

def failureLine : CommandLine.UsageError ⊕ Failure → String
  | .inl _ => "error: the arguments were refused; try --help"
  | .inr failure => "Error: " ++ String.ofList failure.message

end SchemaClasses.Disk

open SchemaClasses in
def main (arguments : List String) : IO UInt32 := do
  let outcome ← CommandLine.execute Disk.access (← Disk.home) (arguments.map String.toList)
  for line in outcome.lines do
    IO.println (String.ofList line)
  if let some failure := outcome.failure? then
    IO.eprintln (Disk.failureLine failure)
  return outcome.exitCode.toUInt32
