import SchemaClasses.Files.Access
import SchemaClasses.Settings.Basic
import SchemaClasses.Toml.Table
import SchemaClasses.Yaml.Node

set_option autoImplicit false

namespace SchemaClasses.Settings

section

open Toml

namespace TomlItem

def text? : Item → Option Text
  | .string text => some text
  | _ => none

def texts? : Item → Option (List Text)
  | .array items => items.mapM text?
  | _ => none

def isVoid : Item → Bool
  | .array [] => true
  | .table _ [] => true
  | _ => false

def choice? : Item → Option Text
  | .string text => some text
  | .table _ [(name, item)] => if isVoid item then some name else none
  | _ => none

end TomlItem

def tomlReading : Reading Item where
  text? := TomlItem.text?
  texts? := TomlItem.texts?
  choice? := TomlItem.choice?
  optionalText? item := (TomlItem.text? item).map some

def ofToml? (s : Text) : Option Settings := do
  let entries ← Entries.ofText? s
  ofFields? tomlReading (fieldNames.map fun name => entries.lookup name)

end

section

open Yaml

namespace YamlNode

def text? : Node → Option Text
  | .scalar _ text => some text
  | _ => none

def texts? : Node → Option (List Text)
  | .sequence items => items.mapM text?
  -- A key without a value has an empty list.
  | .scalar true [] => some []
  | _ => none

def nullTexts : List Text := [[], "~".toList, "null".toList, "Null".toList, "NULL".toList]

def optionalText? : Node → Option (Option Text)
  | .scalar true text => some (if nullTexts.any (· == text) then none else some text)
  | .scalar false text => some (some text)
  | _ => none

def field? (entries : List (Text × Node)) (name : Text) : Option (Option Node) :=
  match entries.filter fun entry => entry.1 = name with
  | [] => some none
  | [(_, value)] => some (some value)
  | _ => none

end YamlNode

def yamlReading : Reading Node where
  text? := YamlNode.text?
  texts? := YamlNode.texts?
  choice? := YamlNode.text?
  optionalText? := YamlNode.optionalText?

def ofNode? : Node → Option Settings
  | .mapping entries => do
    let entries ← entries.mapM fun (key, value) =>
      (YamlNode.text? key).map fun name => (name, value)
    ofFields? yamlReading (← fieldNames.mapM (YamlNode.field? entries))
  | .scalar true [] => some standard
  | _ => none

def ofYaml? (s : Text) : Option Settings := (Node.ofText? s).bind ofNode?

end

variable {m : Type → Type} [Monad m]

def isYamlFile (path : Path) : Bool :=
  path.hasExtension "yaml".toList || path.hasExtension "yml".toList

def parse (path : Path) (text : Text) : Except Cause Settings :=
  if isYamlFile path then (ofYaml? text).elim (.error .invalidYaml) .ok
  else (ofToml? text).elim (.error .invalidToml) .ok

def locate (file path : Path) : Path :=
  match file.parent? with
  | some directory => directory.join path
  | none => path

def load (files : FileAccess m) (path : Path) : ExceptT Failure m Settings := do
  let text ← files.read path
  match parse path text with
  | .ok settings =>
    return { settings with wrapperTemplate? := settings.wrapperTemplate?.map (locate path) }
  | .error cause => throw ⟨[.readSettings path], cause⟩

end SchemaClasses.Settings
