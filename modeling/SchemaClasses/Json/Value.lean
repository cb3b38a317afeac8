import SchemaClasses.Json.Document
import SchemaClasses.Json.Number

set_option autoImplicit false

namespace SchemaClasses.Json

inductive Value where
  | null
  | bool (b : Bool)
  | number (n : Number)
  | string (s : Text)
  | array (items : List Value)
  | object (fields : List (Text × Value))

namespace Value

def mostNested : Nat := 127

def putField (key : Text) (value : Value) : List (Text × Value) → List (Text × Value)
  | [] => [(key, value)]
  | (k, v) :: rest => if k = key then (k, value) :: rest else (k, v) :: putField key value rest

mutual

def ofDocument? (left : Nat) : Document → Option Value
  | .null => some .null
  | .bool b => some (.bool b)
  | .number literal => (Number.ofLiteral? literal).map .number
  | .string parts => (StringPart.decode? parts).map .string
  | .array items => if left = 0 then none else (ofItems? (left - 1) items).map .array
  | .object fields => if left = 0 then none else (ofFields? (left - 1) [] fields).map .object

def ofItems? (left : Nat) : List Document → Option (List Value)
  | [] => some []
  | item :: items => do return (← ofDocument? left item) :: (← ofItems? left items)

def ofFields? (left : Nat) (before : List (Text × Value)) :
    List (List StringPart × Document) → Option (List (Text × Value))
  | [] => some before
  | (key, document) :: fields => do
    let key ← StringPart.decode? key
    let value ← ofDocument? left document
    ofFields? left (putField key value before) fields

end

def ofText? (s : Text) : Option Value := (Document.ofText? s).bind (ofDocument? mostNested)

mutual

def size : Value → Nat
  | .array items => 1 + sizeItems items
  | .object fields => 1 + sizeFields fields
  | _ => 1

def sizeItems : List Value → Nat
  | [] => 0
  | item :: items => size item + sizeItems items

def sizeFields : List (Text × Value) → Nat
  | [] => 0
  | (_, value) :: fields => size value + sizeFields fields

end

def string? : Value → Option Text
  | .string s => some s
  | _ => none

def isObject : Value → Bool
  | .object _ => true
  | _ => false

def fields : Value → List (Text × Value)
  | .object fields => fields
  | _ => []

def field? (key : Text) (value : Value) : Option Value := value.fields.lookup key

end Value

end SchemaClasses.Json
