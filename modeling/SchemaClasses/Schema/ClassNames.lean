import SchemaClasses.Schema.Node

set_option autoImplicit false

namespace SchemaClasses.Schema

/-- Names and the positions of the nodes that have them, the oldest first. -/
structure ClassNames where
  reserved : List (Text × List Nat)
deriving DecidableEq

namespace ClassNames

def empty : ClassNames := ⟨[]⟩

def nameOf? (names : ClassNames) (node : Node) : Option Text :=
  (names.reserved.find? fun entry => entry.2 == node.position).map Prod.fst

def isTaken (names : ClassNames) (name : Text) : Bool :=
  names.reserved.any fun entry => entry.1 == name

def numbered (base : Text) (n : Nat) : Text := base ++ Text.ofNat n

def free (names : ClassNames) (base : Text) : Text :=
  if names.isTaken base then
    -- Of as many numbers as there are names and one more, one is free.
    match (List.range names.reserved.length).find? fun n =>
        !names.isTaken (numbered base (n + 2)) with
    | some n => numbered base (n + 2)
    | none => numbered base (names.reserved.length + 2)
  else base

def reserve (names : ClassNames) (base : Text) (node : Node) : Text × ClassNames :=
  match names.nameOf? node with
  | some name => (name, names)
  | none => (names.free base, ⟨names.reserved ++ [(names.free base, node.position)]⟩)

end ClassNames

end SchemaClasses.Schema
