import SchemaClasses.Path

set_option autoImplicit false

namespace SchemaClasses

inductive Cause where
  | invalidJson
  | invalidToml
  | invalidYaml
  | notFound
  | isDirectory
  | notDirectory
  | alreadyExists
  | invalidText
  | rootNotObject
  | storageFull
deriving DecidableEq

inductive Activity where
  | readFile (path : Path)
  | writeFile (path : Path)
  | createDirectory (path : Path)
  | loadTemplate (path : Path)
  | loadSchema (path : Path)
  | readSchema (path : Path)
  | readSettings (path : Path)
  | generateClasses (path : Path)
  | writeCombined (path : Path)
  | writeWrapper (className : Text)
  | startLogging (path : Path)
deriving DecidableEq

structure Failure where
  activities : List Activity
  cause : Cause
deriving DecidableEq

def Activity.message : Activity → Text
  | readFile path => "Failed to read file ".toList ++ path.text
  | writeFile path => "Failed to write file ".toList ++ path.text
  | createDirectory path => "Failed to create directory ".toList ++ path.text
  | loadTemplate path => "Failed to load wrapper template ".toList ++ path.text
  | loadSchema path => "Failed to load schema ".toList ++ path.text
  | readSchema path => "Failed to parse schema file ".toList ++ path.text
  | readSettings path => "Failed to parse configuration file ".toList ++ path.text
  | generateClasses path => "Failed to generate classes from ".toList ++ path.text
  | writeCombined path => "Failed to write combined source ".toList ++ path.text
  | writeWrapper className => "Failed to write wrapper for class ".toList ++ className
  | startLogging path => "Failed to initialize logging from ".toList ++ path.text

def Cause.message? : Cause → Option Text
  | rootNotObject => some "Schema root must be a JSON object".toList
  | storageFull => some "disk full".toList
  | _ => none

namespace Failure

def message (failure : Failure) : Text :=
  List.intercalate ": ".toList
    (failure.activities.map Activity.message ++ failure.cause.message?.toList)

def during (activity : Activity) (failure : Failure) : Failure :=
  { failure with activities := activity :: failure.activities }

def within {m : Type → Type} {α : Type} [Monad m] (activity : Activity)
    (action : ExceptT Failure m α) : ExceptT Failure m α :=
  ExceptT.adapt (during activity) action

end Failure

end SchemaClasses
