import SchemaClasses.Proofs.Schema.IdentifierNames

set_option autoImplicit false

namespace SchemaClasses

namespace Naming

open Text

/-- A capital letter or an underscore and a digit, and letters and digits behind it. -/
inductive PascalForm : Text → Prop where
  | word {c : Char} {rest : Text} (first : c.isUpper = true)
      (others : ∀ d ∈ rest, d.isAlphanum = true) : PascalForm (c :: rest)
  | number {c : Char} {rest : Text} (first : c.isDigit = true)
      (others : ∀ d ∈ rest, d.isAlphanum = true) : PascalForm ('_' :: c :: rest)

theorem isAlphanum_of_isDigit {c : Char} (digit : c.isDigit = true) : c.isAlphanum = true := by
  simp [Char.isAlphanum, digit]

set_option maxRecDepth 4000 in
theorem toUpper_of_isDigit {c : Char} (digit : c.isDigit = true) : c.toUpper = c :=
  forall_ascii (P := fun c => c.isDigit = true → c.toUpper = c) (by decide)
    (ascii_of_isAlphanum (isAlphanum_of_isDigit digit)) digit

theorem compound_inside {s : Text} (alphanum : ∀ c ∈ s, c.isAlphanum = true) : compound false s = s := by
  induction s with
  | nil => rfl
  | cons c rest ih =>
    obtain ⟨first, others⟩ := List.forall_mem_cons.mp alphanum
    simp [compound, first, ih others]

theorem compound_cons {c : Char} {rest : Text} (first : c.isAlphanum = true) (kept : c.toUpper = c)
    (others : ∀ d ∈ rest, d.isAlphanum = true) : compound true (c :: rest) = c :: rest := by
  simp [compound, first, kept, compound_inside others]

theorem PascalForm.pascalCase_eq {s : Text} (form : PascalForm s) : pascalCase s = s := by
  rw [pascalCase_eq_guardDigit]
  cases form with
  | word first others =>
    rw [compound_cons (isAlphanum_of_isUpper first) (case_of_isUpper first).1 others, guardDigit,
      isDigit_of_isUpper first]
    rfl
  | @number c rest first others =>
    -- The underscore is no part of a word, and the digit behind it brings it back.
    have dropped : compound true ('_' :: c :: rest) = compound true (c :: rest) := rfl
    rw [dropped, compound_cons (isAlphanum_of_isDigit first) (toUpper_of_isDigit first) others, guardDigit,
      if_pos first]

theorem pascalCase_cases (s : Text) : pascalCase s = [] ∨ PascalForm (pascalCase s) := by
  rw [pascalCase_eq_guardDigit]
  cases starts : compound true s with
  | nil => exact .inl rfl
  | cons c rest =>
    obtain ⟨digit, upper⟩ := starts_of_compound starts
    have others : ∀ d ∈ rest, d.isAlphanum = true := fun d member =>
      isAlphanum_of_mem_compound (starts ▸ List.mem_cons_of_mem c member)
    right
    rw [guardDigit]
    split
    · rename_i leads
      exact .number leads others
    · rename_i leads
      exact .word (upper (leads ∘ digit.mp)) others

theorem pascalCase_eq_self_iff {s : Text} : pascalCase s = s ↔ s = [] ∨ PascalForm s := by
  constructor
  · intro same
    exact same ▸ pascalCase_cases s
  · rintro (rfl | form)
    · rfl
    · exact form.pascalCase_eq

theorem pascalCase_pascalCase (s : Text) : pascalCase (pascalCase s) = pascalCase s :=
  pascalCase_eq_self_iff.mpr (pascalCase_cases s)

theorem PascalForm.append {s t : Text} (form : PascalForm s) (more : ∀ d ∈ t, d.isAlphanum = true) :
    PascalForm (s ++ t) := by
  cases form with
  | word first others => exact .word first (List.forall_mem_append.mpr ⟨others, more⟩)
  | number first others => exact .number first (List.forall_mem_append.mpr ⟨others, more⟩)

theorem filter_pascalCase (s : Text) : (pascalCase s).filter Char.isAlphanum = compound true s := by
  have all := List.filter_eq_self.mpr fun c member => isAlphanum_of_mem_compound (s := s) (c := c) member
  rw [pascalCase_eq_guardDigit]
  cases starts : compound true s with
  | nil => rfl
  | cons c rest =>
    rw [starts] at all
    rw [guardDigit]
    split
    · rw [List.filter_cons_of_neg (by decide), all]
    · exact all

theorem map_toLower_compound (starts : Bool) (s : Text) :
    (compound starts s).map Char.toLower = (s.filter Char.isAlphanum).map Char.toLower := by
  induction s generalizing starts with
  | nil => rfl
  | cons c rest ih =>
    by_cases alphanum : c.isAlphanum = true
    · have same : c.toUpper.toLower = c.toLower :=
        forall_ascii (P := fun c => c.toUpper.toLower = c.toLower) (by decide)
          (ascii_of_isAlphanum alphanum)
      cases starts <;> simp [compound, alphanum, ih, same]
    · simp [compound, alphanum, ih]

end Naming

namespace Schema

open Naming Node

theorem isAlphanum_of_mem_item : ∀ c ∈ "Item".toList, c.isAlphanum = true := List.all_eq_true.mp rfl

theorem pascalForm_itemName {name : Text} (form : PascalForm name) (arrays : Nat) :
    PascalForm (itemName arrays name) := by
  induction arrays generalizing name with
  | zero => exact form
  | succ arrays ih => exact ih (form.append isAlphanum_of_mem_item)

theorem pascalCase_itemName (arrays : Nat) (s : Text) :
    pascalCase (itemName arrays (pascalCase s)) = itemName arrays (pascalCase s) := by
  rcases pascalCase_cases s with empty | form
  · rw [empty]
    cases arrays with
    | zero => rfl
    | succ arrays =>
      have item : PascalForm "Item".toList :=
        .word rfl (List.forall_mem_cons.mp isAlphanum_of_mem_item).2
      exact (pascalForm_itemName item arrays).pascalCase_eq
  · exact (pascalForm_itemName form arrays).pascalCase_eq

theorem names_in_normal_form (s : Text) :
    (pascalCase s = [] ↔ ¬ ∃ c ∈ s, c.isAlphanum = true) ∧
    (pascalCase s = [] ∨ PascalForm (pascalCase s)) ∧
    ((pascalCase s).filter Char.isAlphanum).map Char.toLower = (s.filter Char.isAlphanum).map Char.toLower ∧
    pascalCase (pascalCase s) = pascalCase s ∧
    (∀ arrays, pascalCase (itemName arrays (pascalCase s)) = itemName arrays (pascalCase s)) ∧
    ∀ (document : Json.Value) (schema last : Node) (arrays : Nat), Inside (Node.root document) schema →
      LeadsTo (Node.root document) arrays schema last → DeclaresInPlace last →
        PropertyModel.shapeOf (Node.root document) (s, schema) =
          Shape.nested arrays (.inlineClass (itemName arrays (pascalCase s)) last) := by
  refine ⟨pascalCase_eq_nil_iff, pascalCase_cases s, ?_, pascalCase_pascalCase s,
    fun arrays => pascalCase_itemName arrays s, ?_⟩
  · rw [filter_pascalCase, map_toLower_compound]
  · intro document schema last arrays inside way declares
    rw [PropertyModel.shapeOf, Shape.ofProperty_of_declaresInPlace _ inside way declares, pascalCase_itemName]

def sparePart : Json.Value := .object [("properties".toList, .object [])]

def spareParts : Json.Value :=
  .object [("type".toList, .string "array".toList), ("items".toList, sparePart)]

def partsList : Json.Value := .object [("3d-parts".toList, spareParts)]

theorem shapeOf_spareParts :
    (Inside (Node.root partsList) ⟨[0], spareParts⟩ ∧
      LeadsTo (Node.root partsList) 1 ⟨[0], spareParts⟩ ⟨[1, 0], sparePart⟩ ∧
      DeclaresInPlace ⟨[1, 0], sparePart⟩) ∧
    PropertyModel.shapeOf (Node.root partsList) ("3d-parts".toList, ⟨[0], spareParts⟩) =
      .list (.inlineClass "_3dPartsItem".toList ⟨[1, 0], sparePart⟩) := by
  have inside : Inside (Node.root partsList) ⟨[0], spareParts⟩ := .field .self List.mem_cons_self
  have way : LeadsTo (Node.root partsList) 1 ⟨[0], spareParts⟩ ⟨[1, 0], sparePart⟩ :=
    .item ⟨rfl, rfl, rfl, rfl⟩ .here
  have declares : DeclaresInPlace ⟨[1, 0], sparePart⟩ := ⟨rfl, .inr rfl, rfl⟩
  have name : itemName 1 (pascalCase "3d-parts".toList) = "_3dPartsItem".toList := by decide
  have shape := (names_in_normal_form "3d-parts".toList).2.2.2.2.2 partsList _ _ 1 inside way declares
  rw [name] at shape
  exact ⟨⟨inside, way, declares⟩, shape⟩

end Schema

end SchemaClasses
