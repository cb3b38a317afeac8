import SchemaClasses.Naming
import SchemaClasses.Schema.ClassModel
import SchemaClasses.Schema.Node

set_option autoImplicit false

namespace SchemaClasses.Schema

inductive Shape where
  | scalar (type : Scalar)
  | list (item : Shape)
  | inlineClass (base : Text) (node : Node)
  | reference (base : Text) (node : Node)
  /-- A reference to something outside the document. -/
  | unresolved (className : Text)

namespace Shape

def referenceName (link : Text) : Text := Naming.pascalCase (Text.afterLast '/' link)

def isNamedTarget (target : Node) : Bool :=
  target.isObjectSchema || (target.value.field? "$ref".toList).isSome

def of (root : Node) : Nat → Text → Node → Shape
  | 0, _, _ => .scalar .object
  | steps + 1, name, node =>
    match node.reference? with
    | some link =>
      match root.target? link with
      | some target =>
        if isNamedTarget target then .reference (referenceName link) target
        else of root steps name target
      | none =>
        if referenceName link = [] then .scalar .object else .unresolved (referenceName link)
    | none =>
      match node.kind with
      | .string => .scalar .string
      | .integer =>
        if node.text? "format".toList = some "int64".toList then .scalar .long else .scalar .int
      | .number => .scalar .double
      | .boolean => .scalar .bool
      | .array =>
        match node.field? "items".toList with
        | some items =>
          if items.isObject then .list (of root steps (name ++ "Item".toList) items)
          else .list (.scalar .object)
        | none => .list (.scalar .object)
      | .object | .unspecified =>
        if node.hasProperties then .inlineClass (Naming.pascalCase name) node else .scalar .object

-- No chain of references and items is longer than the document unless it loops.
def ofProperty (root : Node) (name : Text) (node : Node) : Shape :=
  of root (root.value.size + 1) name node

end Shape

end SchemaClasses.Schema
