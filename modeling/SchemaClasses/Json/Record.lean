import SchemaClasses.Json.Document
import SchemaClasses.Json.Number

set_option autoImplicit false

namespace SchemaClasses.Json.Document

def knownFields? (names : List Text) :
    List (List StringPart × Document) → Option (List (Text × Document))
  | [] => some []
  | (key, document) :: rest => do
    let key ← StringPart.decode? key
    let others ← knownFields? names rest
    if key ∈ names then
      if (others.lookup key).isSome then none else some ((key, document) :: others)
    else some others

def optionalFields? (names : List Text) : Document → Option (List (Option Document))
  | .object fields =>
    (knownFields? names fields).map fun known => names.map fun name => known.lookup name
  | .array items =>
    if items.length ≤ names.length then
      some (items.map some ++ List.replicate (names.length - items.length) none)
    else none
  | _ => none

def requiredFields? (names : List Text) (document : Document) : Option (List Document) :=
  (optionalFields? names document).bind fun fields => fields.mapM id

def string? : Document → Option Text
  | .string parts => StringPart.decode? parts
  | _ => none

def natural? : Document → Option Nat
  | .number literal =>
    match Number.ofLiteral? literal with
    | some (.integer (.ofNat n)) => some n
    | _ => none
  | _ => none

def list? {α : Type} (item? : Document → Option α) : Document → Option (List α)
  | .array items => items.mapM item?
  | _ => none

def choice? : Document → Option Text
  | .string parts => StringPart.decode? parts
  | .object [(key, .null)] => StringPart.decode? key
  | _ => none

end SchemaClasses.Json.Document
