import SchemaClasses.Output.Store
import SchemaClasses.Source.ClassBlock

set_option autoImplicit false

namespace SchemaClasses

inductive Placeholder where
  | namespaceName
  | className
  | properties
deriving DecidableEq

namespace Placeholder

def all : List Placeholder := [namespaceName, className, properties]

def text : Placeholder → Text
  | namespaceName => "\x7b\x7bnamespace\x7d\x7d".toList
  | className => "\x7b\x7bclass_name\x7d\x7d".toList
  | properties => "\x7b\x7bproperties\x7d\x7d".toList

end Placeholder

structure Template where
  text : Text
deriving DecidableEq

namespace Template

def builtinLines : List String :=
  ["",
  "using Bonsai;",
  "using System;",
  "using System.ComponentModel;",
  "using System.Collections.Generic;",
  "using System.Linq;",
  "using System.Reactive.Linq;",
  "using YamlDotNet.Serialization;",
  "using System.IO;",
  "using YamlDotNet.Serialization.NamingConventions;",
  "using YamlDotNet.Core;",
  "using \x7b\x7bnamespace\x7d\x7d;",
  "",
  "namespace \x7b\x7bnamespace\x7d\x7d",
  "\x7b",
  "    [Combinator]",
  "    [Description(\"Constructor.\")]",
  "    [WorkflowElementCategory(ElementCategory.Source)]",
  "    public partial class \x7b\x7bclass_name\x7d\x7d",
  "    \x7b",
  "        public IObservable<\x7b\x7bclass_name\x7d\x7d> Process()",
  "        \x7b",
  "            return Observable.Defer(() =>",
  "            \x7b",
  "                var value = new \x7b\x7bclass_name\x7d\x7d",
  "                \x7b",
  "\x7b\x7bproperties\x7d\x7d",
  "                \x7d;",
  "                return Observable.Return(value);",
  "            \x7d);",
  "        \x7d",
  "    \x7d",
  "\x7d",
  ""]

def builtin : Template := ⟨Text.joinWith '\n' (builtinLines.map String.toList)⟩

def missing (template : Template) : List Placeholder :=
  Placeholder.all.filter fun placeholder => !Text.contains placeholder.text template.text

def assignment (property : Text) : Text :=
  "\t\t\t\t\t".toList ++ property ++ " = ".toList ++ property ++ ",\n".toList

def fill (placeholder : Placeholder) (value : Text) (text : Text) : Text :=
  Text.replaceAll placeholder.text value text

def render (template : Template) (namespaceName : Text) (block : ClassBlock) : Text :=
  fill .properties (block.properties.flatMap assignment)
    (fill .className block.name (fill .namespaceName namespaceName template.text))

end Template

structure WrapperStyle where
  template : Template
  namespaceName : Text
  extension : Text
  directory : Path

namespace WrapperStyle

def fileName (style : WrapperStyle) (block : ClassBlock) : Text :=
  block.name ++ '.' :: style.extension

def artifact (style : WrapperStyle) (block : ClassBlock) : Artifact :=
  ⟨style.directory.join ⟨style.fileName block⟩, style.template.render style.namespaceName block⟩

def emit {m : Type → Type} [Monad m] (style : WrapperStyle) (writer : Writer m)
    (block : ClassBlock) : ExceptT Failure m Path := do
  let artifact := style.artifact block
  Failure.within (.writeWrapper block.name) (writer artifact.path artifact.content)
  return artifact.path

end WrapperStyle

end SchemaClasses
