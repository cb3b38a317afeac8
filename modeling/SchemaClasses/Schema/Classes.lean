import SchemaClasses.Schema.ClassNames
import SchemaClasses.Schema.Shape

set_option autoImplicit false

namespace SchemaClasses.Schema

structure NamedNode where
  name : Text
  node : Node

structure Draft where
  names : ClassNames
  pending : List NamedNode

structure Resolved where
  type : TypeName
  initializer? : Option Initializer

namespace Resolved

def ofClass (className : Text) : Resolved := ⟨.named className, some (.construct className)⟩

def ofReference (owner target : Node) (className : Text) : Resolved :=
  -- A new object would hold a new object of its own class, without end.
  if target.position = owner.position then ⟨.named className, none⟩ else ofClass className

def listOf (item : Resolved) : Resolved := ⟨.list item.type, some (.collection item.type)⟩

end Resolved

namespace Draft

def inlineClass (draft : Draft) (base : Text) (node : Node) : Resolved × Draft :=
  let (name, names) := draft.names.reserve base node
  (.ofClass name, ⟨names, draft.pending ++ [⟨name, node⟩]⟩)

def reference (draft : Draft) (owner : Node) (base : Text) (target : Node) : Resolved × Draft :=
  let (name, names) := draft.names.reserve base target
  let isNew := (draft.names.nameOf? target).isNone && target.isObjectSchema
  (.ofReference owner target name,
    ⟨names, if isNew then draft.pending ++ [⟨name, target⟩] else draft.pending⟩)

def resolve (draft : Draft) (owner : Node) : Shape → Resolved × Draft
  | .scalar type => (⟨.scalar type, none⟩, draft)
  | .list item => let (item, draft) := draft.resolve owner item; (item.listOf, draft)
  | .inlineClass base node => draft.inlineClass base node
  | .reference base node => draft.reference owner base node
  | .unresolved className => (.ofClass className, draft)

end Draft

def escape : Text → Text
  | [] => []
  | '\\' :: rest => '\\' :: '\\' :: escape rest
  | '"' :: rest => '\\' :: '"' :: escape rest
  | '\n' :: rest => '\\' :: 'n' :: escape rest
  | '\r' :: rest => '\\' :: 'r' :: escape rest
  | c :: rest => c :: escape rest

def quote (s : Text) : Text := '"' :: escape s ++ ['"']

def literal? : Json.Value → Option Text
  | .string s => some (quote s)
  | .number n => some n.render
  | .bool true => some "true".toList
  | .bool false => some "false".toList
  | _ => none

namespace PropertyModel

def typeFor (resolved : Resolved) (required : Bool) (initializer? : Option Initializer) :
    TypeName :=
  match resolved.type with
  | .scalar type =>
    if type.isValueType && !required && initializer?.isNone then .nullable type else .scalar type
  | type => type

def of (jsonName : Text) (node : Node) (required : Bool) (resolved : Resolved) : PropertyModel :=
  let default? := ((node.value.field? "default".toList).bind literal?).map Initializer.literal
  let initializer? := default? <|> resolved.initializer?
  { jsonName := jsonName
    name := Naming.pascalCase jsonName
    type := typeFor resolved required initializer?
    initializer? := initializer?
    required := required
    description? := node.description? }

def collect (root owner : Node) (draft : Draft) : List (Text × Node) → List PropertyModel × Draft
  | [] => ([], draft)
  | (jsonName, node) :: rest =>
    let shape := Shape.ofProperty root (Naming.pascalCase jsonName) node
    let (resolved, draft) := draft.resolve owner shape
    let (properties, draft) := collect root owner draft rest
    (of jsonName node (owner.required.contains jsonName) resolved :: properties, draft)

end PropertyModel

def Node.propertyFields (node : Node) : List (Text × Node) :=
  match node.properties? with
  | some properties => properties.fields
  | none => []

namespace ClassModel

def build (root : Node) (names : ClassNames) (entry : NamedNode) : ClassModel × Draft :=
  let (properties, draft) :=
    PropertyModel.collect root entry.node ⟨names, []⟩ entry.node.propertyFields
  (⟨entry.name, entry.node.description?, properties⟩, draft)

def isBuilt (classes : List ClassModel) (entry : NamedNode) : Bool :=
  classes.any fun model => model.name == entry.name

def buildAll (root : Node) : Nat → ClassNames → List ClassModel → List NamedNode → List ClassModel
  | 0, _, classes, _ => classes
  | steps + 1, names, classes, pending =>
    match pending.dropWhile (isBuilt classes) with
    | [] => classes
    | entry :: rest =>
      let (model, draft) := build root names entry
      buildAll root steps draft.names (classes ++ [model]) (draft.pending ++ rest)

end ClassModel

namespace Draft

def define (draft : Draft) : List (Text × Node) → Draft
  | [] => draft
  | (key, node) :: rest =>
    if node.isObjectSchema then
      let (name, names) := draft.names.reserve (Naming.pascalCase key) node
      define ⟨names, draft.pending ++ [⟨name, node⟩]⟩ rest
    else define draft rest

def sectionFields (root : Node) (key : Text) : List (Text × Node) :=
  match root.field? key with
  | some definitions => definitions.fields
  | none => []

def start (root : Node) (rootName : Text) : Draft :=
  let (name, names) := ClassNames.empty.reserve rootName root
  define ⟨names, [⟨name, root⟩]⟩
    (sectionFields root "definitions".toList ++ sectionFields root "$defs".toList)

end Draft

-- Every class belongs to a node of its own, so the size of the document bounds their number.
def classes (document : Json.Value) (rootName : Text) : List ClassModel :=
  let root := Node.root document
  let start := Draft.start root rootName
  ClassModel.buildAll root document.size start.names [] start.pending

end SchemaClasses.Schema
