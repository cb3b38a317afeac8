import SchemaClasses.Json.Pretty
import SchemaClasses.Json.Record
import SchemaClasses.Path
import SchemaClasses.Source.ClassBlock

set_option autoImplicit false

namespace SchemaClasses

structure Statistics where
  inputLines : Nat
  strippedAnnotations : Nat
  expandedProperties : Nat
  classesFound : Nat
  propertiesFound : Nat
  wrappersWritten : Nat
  diagnostics : Nat
deriving DecidableEq

namespace Statistics

def zero : Statistics := ⟨0, 0, 0, 0, 0, 0, 0⟩

def merge (a b : Statistics) : Statistics :=
  { inputLines := a.inputLines + b.inputLines
    strippedAnnotations := a.strippedAnnotations + b.strippedAnnotations
    expandedProperties := a.expandedProperties + b.expandedProperties
    classesFound := a.classesFound + b.classesFound
    propertiesFound := a.propertiesFound + b.propertiesFound
    wrappersWritten := a.wrappersWritten + b.wrappersWritten
    diagnostics := a.diagnostics + b.diagnostics }

def totals (total : Statistics) : List Statistics → List Statistics
  | [] => []
  | run :: runs => total.merge run :: totals (total.merge run) runs

def averageProperties (a : Statistics) : Float :=
  if a.classesFound = 0 then 0.0
  else a.propertiesFound.toUInt64.toFloat / a.classesFound.toUInt64.toFloat

end Statistics

structure Report where
  classes : List ClassBlock
  diagnostics : List Diagnostic
  writtenFiles : List Path
  statistics : Statistics
deriving DecidableEq

namespace DiagnosticKind

def name : DiagnosticKind → Text
  | unrecognizedMember => "unrecognized_member".toList
  | nestedClass => "nested_class".toList
  | negativeBraceDepth => "negative_brace_depth".toList
  | unterminatedClass => "unterminated_class".toList

def all : List DiagnosticKind :=
  [unrecognizedMember, nestedClass, negativeBraceDepth, unterminatedClass]

def ofName? (text : Text) : Option DiagnosticKind := all.find? fun kind => kind.name == text

@[simp] theorem ofName?_name (kind : DiagnosticKind) : ofName? kind.name = some kind := by
  cases kind <;> decide

end DiagnosticKind

open Json

def ClassBlock.fieldNames : List Text := ["name".toList, "properties".toList, "line".toList]

def Diagnostic.fieldNames : List Text := ["line".toList, "kind".toList, "message".toList]

def Statistics.fieldNames : List Text :=
  ["input_lines".toList, "stripped_annotations".toList, "expanded_properties".toList,
    "classes_found".toList, "properties_found".toList, "wrappers_written".toList,
    "diagnostics".toList]

def Report.fieldNames : List Text :=
  ["classes".toList, "diagnostics".toList, "written_files".toList, "stats".toList]

def ClassBlock.ofDocument? (document : Document) : Option ClassBlock := do
  match ← document.requiredFields? fieldNames with
  | [name, properties, line] =>
    return ⟨← name.string?, ← properties.list? Document.string?, ← line.natural?⟩
  | _ => none

def Diagnostic.ofDocument? (document : Document) : Option Diagnostic := do
  match ← document.requiredFields? fieldNames with
  | [line, kind, message] =>
    return ⟨← line.natural?, ← kind.choice?.bind DiagnosticKind.ofName?, ← message.string?⟩
  | _ => none

def Statistics.ofDocument? (document : Document) : Option Statistics := do
  match ← (← document.requiredFields? fieldNames).mapM Document.natural? with
  | [lines, stripped, expanded, classes, properties, wrappers, diagnostics] =>
    return ⟨lines, stripped, expanded, classes, properties, wrappers, diagnostics⟩
  | _ => none

def Report.ofDocument? (document : Document) : Option Report := do
  match ← document.requiredFields? fieldNames with
  | [classes, diagnostics, files, statistics] =>
    return ⟨← classes.list? ClassBlock.ofDocument?, ← diagnostics.list? Diagnostic.ofDocument?,
      (← files.list? Document.string?).map Path.mk, ← Statistics.ofDocument? statistics⟩
  | _ => none

def Report.ofText? (text : Text) : Option Report := (Document.ofText? text).bind ofDocument?

def naturalValue (n : Nat) : Value := .number (.integer n)

def ClassBlock.toValue (block : ClassBlock) : Value :=
  .object (fieldNames.zip
    [.string block.name, .array (block.properties.map .string), naturalValue block.line])

def Diagnostic.toValue (diagnostic : Diagnostic) : Value :=
  .object (fieldNames.zip
    [naturalValue diagnostic.line, .string diagnostic.kind.name, .string diagnostic.message])

def Statistics.toValue (s : Statistics) : Value :=
  .object (fieldNames.zip
    ([s.inputLines, s.strippedAnnotations, s.expandedProperties, s.classesFound, s.propertiesFound,
      s.wrappersWritten, s.diagnostics].map naturalValue))

def Report.toValue (report : Report) : Value :=
  .object (fieldNames.zip
    [.array (report.classes.map ClassBlock.toValue),
      .array (report.diagnostics.map Diagnostic.toValue),
      .array (report.writtenFiles.map fun path => .string path.text), report.statistics.toValue])

def Report.render (report : Report) : Text := report.toValue.pretty 0

end SchemaClasses
