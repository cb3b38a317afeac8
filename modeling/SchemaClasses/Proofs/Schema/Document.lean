import Mathlib.Data.List.Perm.Subperm
import SchemaClasses.Schema.Node

set_option autoImplicit false

namespace SchemaClasses.Schema.Node

theorem mem_fieldsFrom {position : List Nat} {first : Nat} {fields : List (Text × Json.Value)}
    {key : Text} {child : Node} (member : (key, child) ∈ fieldsFrom position first fields) :
    ∃ index, fields[index]? = some (key, child.value) ∧
      child.position = (first + index) :: position := by
  induction fields generalizing first with
  | nil => contradiction
  | cons field rest ih =>
    obtain ⟨name, value⟩ := field
    rw [fieldsFrom] at member
    rcases List.mem_cons.mp member with here | later
    · obtain ⟨rfl, rfl⟩ := Prod.mk.inj here
      exact ⟨0, rfl, rfl⟩
    · obtain ⟨index, found, place⟩ := ih later
      exact ⟨index + 1, found, by rw [place]; congr 1; omega⟩

theorem mem_fields {node child : Node} {key : Text} (member : (key, child) ∈ node.fields) :
    ∃ index, node.value.fields[index]? = some (key, child.value) ∧
      child.position = index :: node.position := by
  obtain ⟨index, found, place⟩ := mem_fieldsFrom member
  exact ⟨index, found, by rw [place, Nat.zero_add]⟩

theorem mem_fields_of_field? {node child : Node} {key : Text}
    (found : node.field? key = some child) : (key, child) ∈ node.fields := by
  obtain ⟨before, after, split, -⟩ := List.lookup_eq_some_iff.mp found
  rw [split]
  exact List.mem_append_right before List.mem_cons_self

theorem isObject_of_mem_fields {node child : Node} {key : Text}
    (member : (key, child) ∈ node.fields) : node.isObject = true := by
  obtain ⟨index, found, -⟩ := mem_fields member
  unfold isObject
  cases value : node.value with
  | object => rfl
  | null | bool | number | string | array =>
    rw [value] at found
    contradiction

theorem key_eq_of_position {node first second : Node} {firstKey secondKey : Text}
    (one : (firstKey, first) ∈ node.fields) (two : (secondKey, second) ∈ node.fields)
    (same : first.position = second.position) : firstKey = secondKey := by
  obtain ⟨index, found, place⟩ := mem_fields one
  obtain ⟨other, also, there⟩ := mem_fields two
  rw [place, there] at same
  obtain ⟨rfl, -⟩ := List.cons.inj same
  rw [found] at also
  exact (Prod.mk.inj (Option.some.inj also)).1

inductive Inside (start : Node) : Node → Prop where
  | self : Inside start start
  | field {node child : Node} {key : Text} (outer : Inside start node)
      (member : (key, child) ∈ node.fields) : Inside start child

theorem Inside.of_field? {start node child : Node} {key : Text} (inside : Inside start node)
    (found : node.field? key = some child) : Inside start child :=
  .field inside (mem_fields_of_field? found)

theorem Inside.eq_of_position {document : Json.Value} {first second : Node}
    (one : Inside (root document) first) (two : Inside (root document) second)
    (same : first.position = second.position) : first = second := by
  -- The position of a field adds one index to that of its object, so both descend alike.
  induction one generalizing second with
  | self =>
    cases two with
    | self => rfl
    | field outer member =>
      obtain ⟨index, -, place⟩ := mem_fields member
      rw [place] at same
      contradiction
  | @field node child key outer member ih =>
    obtain ⟨index, found, place⟩ := mem_fields member
    cases two with
    | self =>
      rw [place] at same
      contradiction
    | field otherOuter otherMember =>
      obtain ⟨otherIndex, also, there⟩ := mem_fields otherMember
      have indices := List.cons.inj (place.symm.trans (same.trans there))
      have parents := ih otherOuter indices.2
      rw [indices.1, parents, also] at found
      have values := (Prod.mk.inj (Option.some.inj found)).2
      calc child = ⟨child.position, child.value⟩ := rfl
        _ = second := by rw [same, ← values]

mutual

def all (position : List Nat) : Json.Value → List Node
  | .object fields => ⟨position, .object fields⟩ :: allFrom position 0 fields
  | value => [⟨position, value⟩]

def allFrom (position : List Nat) (index : Nat) : List (Text × Json.Value) → List Node
  | [] => []
  | (_, value) :: rest => all (index :: position) value ++ allFrom position (index + 1) rest

end

theorem mem_all_self (position : List Nat) (value : Json.Value) :
    ⟨position, value⟩ ∈ all position value := by
  cases value <;> simp [all]

theorem mem_allFrom_of_mem {position : List Nat} {first : Nat}
    {fields : List (Text × Json.Value)} {key : Text} {child : Node}
    (member : (key, child) ∈ fieldsFrom position first fields) :
    child ∈ allFrom position first fields := by
  induction fields generalizing first with
  | nil => contradiction
  | cons field rest ih =>
    obtain ⟨name, value⟩ := field
    rw [fieldsFrom] at member
    rw [allFrom]
    rcases List.mem_cons.mp member with here | later
    · obtain ⟨rfl, rfl⟩ := Prod.mk.inj here
      exact List.mem_append_left _ (mem_all_self _ _)
    · exact List.mem_append_right _ (ih later)

mutual

theorem all_closed {position : List Nat} {value : Json.Value} {node child : Node} {key : Text}
    (inside : node ∈ all position value) (member : (key, child) ∈ node.fields) :
    child ∈ all position value := by
  cases value with
  | object fields =>
    rw [all] at inside ⊢
    rcases List.mem_cons.mp inside with rfl | deeper
    · exact List.mem_cons_of_mem _ (mem_allFrom_of_mem member)
    · exact List.mem_cons_of_mem _ (allFrom_closed deeper member)
  | null | bool b | number n | string s | array items =>
    obtain rfl : node = ⟨position, _⟩ := by simpa only [all, List.mem_singleton] using inside
    contradiction

theorem allFrom_closed {position : List Nat} {index : Nat} {fields : List (Text × Json.Value)}
    {node child : Node} {key : Text} (inside : node ∈ allFrom position index fields)
    (member : (key, child) ∈ node.fields) : child ∈ allFrom position index fields := by
  cases fields with
  | nil => contradiction
  | cons field rest =>
    obtain ⟨name, value⟩ := field
    rw [allFrom] at inside ⊢
    rcases List.mem_append.mp inside with here | later
    · exact List.mem_append_left _ (all_closed here member)
    · exact List.mem_append_right _ (allFrom_closed later member)

end

theorem Inside.mem_all {document : Json.Value} {node : Node} (inside : Inside (root document) node) :
    node ∈ all [] document := by
  induction inside with
  | self => exact mem_all_self [] document
  | field outer member ih => exact all_closed ih member

mutual

theorem length_all_le (position : List Nat) (value : Json.Value) :
    (all position value).length ≤ value.size := by
  cases value with
  | object fields =>
    have fieldsBound := length_allFrom_le position 0 fields
    rw [all, List.length_cons, Json.Value.size]
    omega
  | null | bool b | number n | string s => simp [all, Json.Value.size]
  | array items => simp [all, Json.Value.size]

theorem length_allFrom_le (position : List Nat) (index : Nat)
    (fields : List (Text × Json.Value)) :
    (allFrom position index fields).length ≤ Json.Value.sizeFields fields := by
  cases fields with
  | nil => simp [allFrom]
  | cons field rest =>
    obtain ⟨name, value⟩ := field
    have here := length_all_le (index :: position) value
    have later := length_allFrom_le position (index + 1) rest
    rw [allFrom, List.length_append, Json.Value.sizeFields]
    omega

end

theorem length_le_size {document : Json.Value} {nodes : List Node}
    (inside : ∀ node ∈ nodes, Inside (root document) node)
    (distinct : (nodes.map position).Nodup) : nodes.length ≤ document.size := by
  have covered : nodes.map position ⊆ (all [] document).map position := by
    intro place member
    obtain ⟨node, listed, rfl⟩ := List.mem_map.mp member
    exact List.mem_map_of_mem (inside node listed).mem_all
  have bound := (List.subperm_of_subset distinct covered).length_le
  rw [List.length_map, List.length_map] at bound
  exact Nat.le_trans bound (length_all_le [] document)

end SchemaClasses.Schema.Node
