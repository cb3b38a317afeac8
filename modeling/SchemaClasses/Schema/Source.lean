import SchemaClasses.Files.Access
import SchemaClasses.Failure
import SchemaClasses.Schema.Classes
import SchemaClasses.Text.Characters

set_option autoImplicit false

namespace SchemaClasses.Schema

def generatorName : Text := "schema_codegen".toList

def generatorVersion : Text := "0.1.0".toList

def indent : Nat → Text
  | 0 => []
  | depth + 1 => "    ".toList ++ indent depth

def descriptionLines (s : Text) : List Text :=
  let lines := Text.splitOn '\n' s
  (if lines.getLast? = some [] then lines.dropLast else lines).map Text.trimEnd

def summary (depth : Nat) : Option Text → List Text
  | none => []
  | some description =>
    (indent depth ++ "/// <summary>".toList)
      :: (descriptionLines description).map (fun line => indent depth ++ "/// ".toList ++ line)
      ++ [indent depth ++ "/// </summary>".toList]

namespace PropertyModel

def handling (property : PropertyModel) : Text :=
  if property.required then "Required = Newtonsoft.Json.Required.Always".toList
  else ("Required = Newtonsoft.Json.Required.DisallowNull, "
    ++ "NullValueHandling = Newtonsoft.Json.NullValueHandling.Ignore").toList

def annotationLine (property : PropertyModel) : Text :=
  indent 2 ++ "[Newtonsoft.Json.JsonProperty(".toList ++ quote property.jsonName ++ ", ".toList
    ++ property.handling ++ ")]".toList

def accessors (property : PropertyModel) : Text :=
  indent 2 ++ "public ".toList ++ property.type.render ++ ' ' :: property.name
    ++ " \x7b get; set; \x7d".toList

def declaration (property : PropertyModel) : Text :=
  match property.initializer? with
  | some initializer => property.accessors ++ " = ".toList ++ initializer.render ++ [';']
  | none => property.accessors

def lines (property : PropertyModel) : List Text :=
  summary 2 property.description? ++ [property.annotationLine, property.declaration]

def allLines : List PropertyModel → List Text
  | [] => []
  | [property] => property.lines
  | property :: next :: rest => property.lines ++ [] :: allLines (next :: rest)

end PropertyModel

namespace ClassModel

def annotationLine : Text :=
  indent 1 ++ "[System.CodeDom.Compiler.GeneratedCode(".toList ++ quote generatorName ++ ", ".toList
    ++ quote generatorVersion ++ ")]".toList

def lines (model : ClassModel) : List Text :=
  [] :: summary 1 model.description?
    ++ [annotationLine, indent 1 ++ "public partial class ".toList ++ model.name,
      indent 1 ++ ['\x7b']]
    ++ PropertyModel.allLines model.properties
    ++ [indent 1 ++ ['\x7d']]

end ClassModel

def headerLines (namespaceName : Text) : List Text :=
  ["//----------------------".toList,
    "// <auto-generated>".toList,
    "//     Generated using ".toList ++ generatorName ++ " v".toList ++ generatorVersion,
    "// </auto-generated>".toList,
    "//----------------------".toList,
    [],
    "namespace ".toList ++ namespaceName,
    ['\x7b'],
    indent 1 ++ "#pragma warning disable // Disable all warnings".toList]

def sourceLines (namespaceName : Text) (models : List ClassModel) : List Text :=
  headerLines namespaceName ++ models.flatMap ClassModel.lines ++ [['\x7d'], []]

def generate (document : Json.Value) (namespaceName rootName : Text) : Except Failure Text :=
  if document.isObject then
    .ok (Text.joinWith '\n' (sourceLines namespaceName (classes document rootName)))
  else .error ⟨[], .rootNotObject⟩

def nonempty? (s : Text) : Option Text := if s = [] then none else some s

def rootName (document : Json.Value) (path : Path) : Text :=
  let title? := (document.field? "title".toList).bind Json.Value.string?
  ((title?.bind fun title => nonempty? (Naming.pascalCase title))
    <|> (path.stem?.bind fun stem => nonempty? (Naming.pascalCase stem))).getD "Anonymous".toList

variable {m : Type → Type} [Monad m]

def loadSchema (files : FileAccess m) (namespaceName : Text) (path : Path) :
    ExceptT Failure m Text := do
  let text ← files.read path
  match Json.Value.ofText? text with
  | none => throw ⟨[.readSchema path], .invalidJson⟩
  | some document =>
    Failure.within (.generateClasses path)
      (ExceptT.mk (pure (generate document namespaceName (rootName document path))))

def sourceExtension : Text := "cs".toList

def loadSource (files : FileAccess m) (namespaceName : Text) (path : Path) :
    ExceptT Failure m Text :=
  if path.hasExtension sourceExtension then files.read path else loadSchema files namespaceName path

end SchemaClasses.Schema
