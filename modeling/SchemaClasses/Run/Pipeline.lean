import SchemaClasses.Output.Wrapper
import SchemaClasses.Run.Report
import SchemaClasses.Schema.Source
import SchemaClasses.Settings.Basic
import SchemaClasses.Source.Annotation

set_option autoImplicit false

namespace SchemaClasses

structure Pipeline where
  settings : Settings
  outputFile : Text
  outputDirectory : Path
  template : Template

structure Passes where
  inputLines : Nat
  stripped : Annotation.Stripped
  expanded : Shorthand.Expansion
  scan : Scan

namespace Passes

def ofSource (settings : Settings) (source : Text) : Passes :=
  let stripped := Annotation.strip settings.annotationMarkers source
  let lines := SourceLine.split stripped.text
  { inputLines := (SourceLine.split source).length
    stripped := stripped
    expanded := Shorthand.expandLines settings.layout lines
    scan := Scan.ofLines lines }

def statistics (passes : Passes) : Statistics where
  inputLines := passes.inputLines
  strippedAnnotations := passes.stripped.removed
  expandedProperties := passes.expanded.count
  classesFound := passes.scan.classes.length
  propertiesFound := ClassBlock.propertyCount passes.scan.classes
  wrappersWritten := passes.scan.classes.length
  diagnostics := passes.scan.diagnostics.length

def report (passes : Passes) (writtenFiles : List Path) : Report :=
  ⟨passes.scan.classes, passes.scan.diagnostics, writtenFiles, passes.statistics⟩

end Passes

namespace Pipeline

def standardOutputFile : Text := "GeneratedClasses.cs".toList

def combinedPath (pipeline : Pipeline) : Path := pipeline.outputDirectory.join ⟨pipeline.outputFile⟩

def style (pipeline : Pipeline) : WrapperStyle where
  template := pipeline.template
  namespaceName := pipeline.settings.namespaceName
  extension := pipeline.settings.wrapperExtension
  directory := pipeline.outputDirectory

def artifacts (pipeline : Pipeline) (source : Text) : List Artifact :=
  let passes := Passes.ofSource pipeline.settings source
  ⟨pipeline.combinedPath, passes.expanded.text⟩ :: passes.scan.classes.map pipeline.style.artifact

variable {m : Type → Type} [Monad m]

def loadTemplate (files : FileAccess m) (settings : Settings) : ExceptT Failure m Template :=
  match settings.wrapperTemplate? with
  | some path => Failure.within (.loadTemplate path) (Template.mk <$> files.read path)
  | none => return .builtin

def process (pipeline : Pipeline) (writer : Writer m) (source : Text) :
    ExceptT Failure m Report := do
  let passes := Passes.ofSource pipeline.settings source
  Failure.within (.writeCombined pipeline.combinedPath)
    (writer pipeline.combinedPath passes.expanded.text)
  let wrappers ← passes.scan.classes.mapM (pipeline.style.emit writer)
  return passes.report (pipeline.combinedPath :: wrappers)

def processInMemory (pipeline : Pipeline) (source : Text) : Except Failure Report × Store :=
  (pipeline.process Store.writer source).run.run Store.empty

def load (files : FileAccess m) (namespaceName : Text) (path : Path) : ExceptT Failure m Text :=
  Failure.within (.loadSchema path) (Schema.loadSource files namespaceName path)

def run (pipeline : Pipeline) (files : FileAccess m) (path : Path) : ExceptT Failure m Report := do
  pipeline.process files.writer (← load files pipeline.settings.namespaceName path)

end Pipeline

end SchemaClasses
