import SchemaClasses.Json.Value

set_option autoImplicit false

namespace SchemaClasses.Schema

/-- The position lists the indices of the fields that lead to the value, the innermost first. -/
structure Node where
  position : List Nat
  value : Json.Value

inductive Kind where
  | string
  | integer
  | number
  | boolean
  | array
  | object
  | unspecified
deriving DecidableEq

def Kind.ofName (name : Text) : Kind :=
  if name = "string".toList then string
  else if name = "integer".toList then integer
  else if name = "number".toList then number
  else if name = "boolean".toList then boolean
  else if name = "array".toList then array
  else if name = "object".toList then object
  else unspecified

namespace Node

def root (document : Json.Value) : Node := ⟨[], document⟩

def fieldsFrom (position : List Nat) (index : Nat) : List (Text × Json.Value) → List (Text × Node)
  | [] => []
  | (key, value) :: rest =>
    (key, ⟨index :: position, value⟩) :: fieldsFrom position (index + 1) rest

def fields (node : Node) : List (Text × Node) := fieldsFrom node.position 0 node.value.fields

def field? (key : Text) (node : Node) : Option Node := node.fields.lookup key

def text? (key : Text) (node : Node) : Option Text :=
  (node.value.field? key).bind Json.Value.string?

def isObject (node : Node) : Bool := node.value.isObject

def kind (node : Node) : Kind :=
  match node.value.field? "type".toList with
  | some (.string name) => .ofName name
  | some (.array items) =>
    match (items.filterMap Json.Value.string?).find? (· ≠ "null".toList) with
    | some name => .ofName name
    | none => .unspecified
  | _ => .unspecified

def properties? (node : Node) : Option Node :=
  match node.field? "properties".toList with
  | some properties => if properties.isObject then some properties else none
  | none => none

def hasProperties (node : Node) : Bool := node.properties?.isSome

def isObjectSchema (node : Node) : Bool := node.hasProperties || node.kind == .object

def description? (node : Node) : Option Text := node.text? "description".toList

def reference? (node : Node) : Option Text := node.text? "$ref".toList

def required (node : Node) : List Text :=
  match node.value.field? "required".toList with
  | some (.array names) => names.filterMap Json.Value.string?
  | _ => []

def target? (root : Node) (reference : Text) : Option Node :=
  if reference = ['#'] then some root
  else do
    let path ← Text.dropStart? "#/".toList reference
    let (group, name) ← Text.splitOnce? '/' path
    (← root.field? group).field? name

end Node

end SchemaClasses.Schema
