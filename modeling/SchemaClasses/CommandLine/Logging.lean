import SchemaClasses.Files.Access
import SchemaClasses.Yaml.Node

set_option autoImplicit false

namespace SchemaClasses.CommandLine.Logging

open Yaml

def isEmpty : Node → Bool
  | .scalar true [] => true
  | _ => false

def text? : Node → Option Text
  | .scalar _ text => some text
  | _ => none

def isText (node : Node) : Bool := (text? node).isSome

def isTextList : Node → Bool
  | .sequence items => items.all isText
  | node => isEmpty node

def levels : List Text :=
  ["off".toList, "error".toList, "warn".toList, "info".toList, "debug".toList, "trace".toList]

def isLevel : Node → Bool
  | .scalar _ text => levels.any (· == text.map Char.toLower)
  | _ => false

def isRecord (fields : List (Text × (Node → Bool))) : Node → Bool
  | .mapping entries =>
    decide (entries.filterMap fun entry => text? entry.1).Nodup
      && entries.all fun (key, value) =>
        (text? key).any fun name => (fields.lookup name).any fun holds => holds value
  | node => isEmpty node

def isTable (holds : Node → Bool) : Node → Bool
  | .mapping entries => entries.all fun (key, value) => isText key && holds value
  | node => isEmpty node

def isLogger : Node → Bool :=
  isRecord [("level".toList, isLevel), ("appenders".toList, isTextList),
    ("additive".toList, isText)]

def isAppender : Node → Bool
  | .mapping _ => true
  | _ => false

def isDocument : Node → Bool :=
  isRecord [("refresh_rate".toList, isText),
    ("root".toList, isRecord [("level".toList, isLevel), ("appenders".toList, isTextList)]),
    ("appenders".toList, isTable isAppender), ("loggers".toList, isTable isLogger)]

def extensions : List Text := ["yaml".toList, "yml".toList]

def start {m : Type → Type} [Monad m] (files : FileAccess m) (path : Path) :
    ExceptT Failure m Unit := do
  unless path.extension?.any fun found => extensions.any (· == found) do
    throw ⟨[.startLogging path], .invalidYaml⟩
  let text ← FileAccess.attempt (.startLogging path) (files.readText path)
  unless (Node.ofText? text).any isDocument do throw ⟨[.startLogging path], .invalidYaml⟩

end SchemaClasses.CommandLine.Logging
