import SchemaClasses.Toml.Statement

set_option autoImplicit false

/-!
The tables that a TOML text defines. How a table came to be decides what may still be added to it:
a table with a header of its own is opened once, a table that only lies on the path of a header may
get one later, and a table made by dotted keys takes further dotted keys.
-/

namespace SchemaClasses.Toml

inductive Origin where
  | inline
  | header
  | path
  | dotted
deriving DecidableEq

inductive Item where
  | string (text : Text)
  | plain
  | array (items : List Item)
  | table (origin : Origin) (entries : List (Text × Item))
  | tables (elements : List (List (Text × Item)))

abbrev Entries := List (Text × Item)

namespace Entries

def replace (key : Text) (item : Item) (entries : Entries) : Entries :=
  entries.map fun (k, old) => if k = key then (k, item) else (k, old)

def add? (key : Text) (item : Item) (entries : Entries) : Option Entries :=
  if (entries.lookup key).isSome then none else some (entries ++ [(key, item)])

inductive Way where
  | header
  | dotted
deriving DecidableEq

namespace Way

def origin : Way → Origin
  | header => .path
  | dotted => .dotted

def mayEnter : Way → Origin → Bool
  | header, .inline => false
  | header, _ => true
  | dotted, .path => true
  | dotted, .dotted => true
  | dotted, _ => false

end Way

def changeAt? (way : Way) (change : Origin → Entries → Option Entries) :
    KeyPath → Origin → Entries → Option Entries
  | [], origin, entries => change origin entries
  | key :: path, _, entries =>
    match entries.lookup key with
    | none => do add? key (.table way.origin (← changeAt? way change path way.origin [])) entries
    | some (.table origin inner) =>
      if way.mayEnter origin then do
        return replace key (.table origin (← changeAt? way change path origin inner)) entries
      else none
    | some (.tables (last :: before)) => do
      return replace key (.tables ((← changeAt? way change path .header last) :: before)) entries
    | _ => none

def assign? (path : KeyPath) (item : Item) (entries : Entries) : Option Entries := do
  let key ← path.getLast?
  changeAt? .dotted
    (fun origin inner => if path.length = 1 ∨ origin = .dotted then add? key item inner else none)
    path.dropLast .header entries

def openTable? (path : KeyPath) (entries : Entries) : Option Entries := do
  let key ← path.getLast?
  changeAt? .header
    (fun _ inner =>
      match inner.lookup key with
      | none => add? key (.table .header []) inner
      -- A table that so far lies only on paths gets its header now.
      | some (.table .path found) => some (replace key (.table .header found) inner)
      | some _ => none)
    path.dropLast .header entries

def openElement? (path : KeyPath) (entries : Entries) : Option Entries := do
  let key ← path.getLast?
  changeAt? .header
    (fun _ inner =>
      match inner.lookup key with
      | none => add? key (.tables [[]]) inner
      | some (.tables elements) => some (replace key (.tables ([] :: elements)) inner)
      | some _ => none)
    path.dropLast .header entries

end Entries

namespace Item

mutual

def ofValue? : Value → Option Item
  | .string text => some (.string text)
  | .plain => some .plain
  | .array items => (ofValues? items).map .array
  | .table fields => (ofFields? [] fields).map (.table .inline)

def ofValues? : List Value → Option (List Item)
  | [] => some []
  | value :: values => do return (← ofValue? value) :: (← ofValues? values)

def ofFields? (before : Entries) : List (KeyPath × Value) → Option Entries
  | [] => some before
  | (path, value) :: fields => do
    let item ← ofValue? value
    ofFields? (← before.assign? path item) fields

end

end Item

namespace Entries

def step? (state : Entries × KeyPath) : Statement → Option (Entries × KeyPath)
  | .header path => (openTable? path state.1).map fun entries => (entries, path)
  | .element path => (openElement? path state.1).map fun entries => (entries, path)
  | .assign path value => do
    let item ← Item.ofValue? value
    let entries ← changeAt? .header (fun _ inner => inner.assign? path item) state.2 .header state.1
    return (entries, state.2)

def ofText? (s : Text) : Option Entries := do
  let statements ← Statement.ofText? s
  return (← statements.foldlM step? ([], [])).1

end Entries

end SchemaClasses.Toml
