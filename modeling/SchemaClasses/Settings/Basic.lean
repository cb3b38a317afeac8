import SchemaClasses.Json.Record
import SchemaClasses.Path
import SchemaClasses.Source.Shorthand

set_option autoImplicit false

namespace SchemaClasses

structure Settings where
  namespaceName : Text
  annotationMarkers : List Text
  wrapperExtension : Text
  layout : PropertyLayout
  wrapperTemplate? : Option Path
deriving DecidableEq

namespace PropertyLayout

def name : PropertyLayout → Text
  | inline => "inline".toList
  | block => "block".toList

def ofName? (text : Text) : Option PropertyLayout :=
  [inline, block].find? fun layout => layout.name == text

@[simp] theorem ofName?_name (layout : PropertyLayout) : ofName? layout.name = some layout := by
  cases layout <;> decide

end PropertyLayout

namespace Settings

def standard : Settings where
  namespaceName := "AutomaticGenerators".toList
  annotationMarkers := ["Newtonsoft".toList, "System".toList]
  wrapperExtension := "cs".toList
  layout := .inline
  wrapperTemplate? := none

def fieldNames : List Text :=
  ["namespace".toList, "annotation_markers".toList, "wrapper_extension".toList,
    "property_layout".toList, "wrapper_template".toList]

structure Reading (α : Type) where
  text? : α → Option Text
  texts? : α → Option (List Text)
  choice? : α → Option Text
  optionalText? : α → Option (Option Text)

def orStandard {α β : Type} (standard : β) (read? : α → Option β) : Option α → Option β
  | none => some standard
  | some value => read? value

def ofFields? {α : Type} (reading : Reading α) : List (Option α) → Option Settings
  | [namespaceName, markers, extension, layout, template] => do
    let template ← orStandard none reading.optionalText? template
    return {
      namespaceName := ← orStandard standard.namespaceName reading.text? namespaceName
      annotationMarkers := ← orStandard standard.annotationMarkers reading.texts? markers
      wrapperExtension := ← orStandard standard.wrapperExtension reading.text? extension
      layout := ← orStandard standard.layout
        (fun value => (reading.choice? value).bind PropertyLayout.ofName?) layout
      wrapperTemplate? := template.map Path.mk }
  | _ => none

section

open Json

def jsonReading : Reading Document where
  text? := Document.string?
  texts? := Document.list? Document.string?
  choice? := Document.choice?
  optionalText?
    | .null => some none
    | document => document.string?.map some

def ofDocument? (document : Document) : Option Settings :=
  (document.optionalFields? fieldNames).bind (ofFields? jsonReading)

end

end Settings

end SchemaClasses
