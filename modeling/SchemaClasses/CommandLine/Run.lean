import SchemaClasses.CommandLine.Arguments
import SchemaClasses.CommandLine.Logging
import SchemaClasses.Run.Pipeline
import SchemaClasses.Settings.Load

set_option autoImplicit false

namespace SchemaClasses.CommandLine

structure Outcome where
  lines : List Text
  failure? : Option (UsageError ⊕ Failure)
deriving DecidableEq

def Outcome.exitCode (outcome : Outcome) : Nat :=
  match outcome.failure? with
  | none => 0
  | some (.inr _) => 1
  | some (.inl _) => 2

def fileLine (file : Artifact) : Text :=
  file.path.text ++ " (".toList ++ Text.ofNat (Text.byteLength file.content) ++ " bytes)".toList

def versionLine : Text := Schema.generatorName ++ ' ' :: Schema.generatorVersion

def helpLines : List Text :=
  ["Expand generated schema classes and emit one wrapper per class",
    "",
    "Usage: schema_codegen [OPTIONS] [SCHEMA] [OUTPUT_DIR] [OUTPUT_FILE]",
    "",
    "Arguments:",
    "  [SCHEMA]       JSON Schema file, or pre-generated source [default: schema.json]",
    "  [OUTPUT_DIR]   Output directory [default: directory of the executable]",
    "  [OUTPUT_FILE]  File name of the combined source [default: GeneratedClasses.cs]",
    "",
    "Options:",
    "  -c, --config <CONFIG>          Generator settings (TOML, or YAML by extension)",
    "      --namespace <NAMESPACE>    Namespace of the generated code, overrides the settings",
    "      --dry-run                  Render everything without writing files",
    "      --log-config <LOG_CONFIG>  Logging configuration (YAML)",
    "      --report <REPORT>          Write the generation report as JSON to this file",
    "  -v, --verbose...               Increase verbosity (-v, -vv)",
    "  -h, --help                     Print help",
    "  -V, --version                  Print version"].map String.toList

variable {m : Type → Type} [Monad m]

def loadSettings (files : FileAccess m) (arguments : Arguments) : ExceptT Failure m Settings := do
  let settings ← match arguments.settingsFile? with
    | some path => Settings.load files path
    | none => pure .standard
  return { settings with namespaceName := arguments.namespaceName?.getD settings.namespaceName }

def loadPipeline (files : FileAccess m) (home : Path) (arguments : Arguments) :
    ExceptT Failure m Pipeline := do
  if let some path := arguments.loggingFile? then Logging.start files path
  let settings ← loadSettings files arguments
  let template ← Pipeline.loadTemplate files settings
  return ⟨settings, arguments.outputFile, arguments.outputDirectory?.getD home, template⟩

def generate (files : FileAccess m) (home : Path) (arguments : Arguments) :
    ExceptT Failure m (Report × List Text) := do
  let pipeline ← loadPipeline files home arguments
  let source ← Pipeline.load files pipeline.settings.namespaceName arguments.schema
  if arguments.dryRun then
    let (result, store) := pipeline.processInMemory source
    ExceptT.mk (pure (result.map fun report => (report, store.files.map fileLine)))
  else return (← pipeline.process files.writer source, [])

def writeReport (files : FileAccess m) (arguments : Arguments) (report : Report) :
    ExceptT Failure m Unit :=
  match arguments.reportFile? with
  | some path => files.writer path report.render
  | none => return

def run (files : FileAccess m) (home : Path) (arguments : Arguments) : m Outcome := do
  match ← (generate files home arguments).run with
  | .error failure => return ⟨[], some (.inr failure)⟩
  | .ok (report, lines) =>
    match ← (writeReport files arguments report).run with
    -- What was printed stays printed when the report cannot be written.
    | .error failure => return ⟨lines, some (.inr failure)⟩
    | .ok _ => return ⟨lines, none⟩

def execute (files : FileAccess m) (home : Path) (arguments : List Text) : m Outcome :=
  match parse Pipeline.standardOutputFile arguments with
  | .error error => return ⟨[], some (.inl error)⟩
  | .ok .help => return ⟨helpLines, none⟩
  | .ok .version => return ⟨[versionLine], none⟩
  | .ok (.run arguments) => run files home arguments

end SchemaClasses.CommandLine
