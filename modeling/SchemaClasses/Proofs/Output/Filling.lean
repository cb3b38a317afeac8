import SchemaClasses.Proofs.Output.Parts

set_option autoImplicit false

namespace SchemaClasses

namespace Part

variable {p q : Placeholder}

def insert (p : Placeholder) (value : Text) : Part → List Part
  | sign c => [sign c]
  | hole q => if q = p then value.map sign else [hole q]

def inserted (p : Placeholder) (value : Text) (parts : List Part) : List Part :=
  parts.flatMap (insert p value)

theorem inserted_cons (p : Placeholder) (value : Text) (part : Part) (parts : List Part) :
    inserted p value (part :: parts) = insert p value part ++ inserted p value parts := rfl

theorem write_inserted (values : Placeholder → Text) (p : Placeholder) (value : Text)
    (parts : List Part) :
    write values (inserted p value parts) = write (Function.update values p value) parts := by
  induction parts with
  | nil => rfl
  | cons part rest ih =>
    rw [inserted_cons, write_append, write_cons, ih]
    cases part with
    | sign c => rfl
    | hole q => by_cases same : q = p <;> simp [insert, text, same]

theorem count_map_sign (p : Placeholder) (s : Text) : (s.map sign).count (hole p) = 0 :=
  List.count_eq_zero.mpr (by simp)

theorem count_inserted (other : q ≠ p) (value : Text) (parts : List Part) :
    (inserted p value parts).count (hole q) = parts.count (hole q) := by
  induction parts with
  | nil => rfl
  | cons part rest ih =>
    rw [inserted_cons, List.count_append, ih, List.count_cons]
    cases part with
    | sign c => simp [insert]
    | hole r =>
      by_cases same : r = p
      · simp [insert, same, count_map_sign, Ne.symm other]
      · simp [insert, same, List.count_cons, Nat.add_comm]

theorem count_inserted_self (p : Placeholder) (value : Text) (parts : List Part) :
    (inserted p value parts).count (hole p) = 0 := by
  induction parts with
  | nil => rfl
  | cons part rest ih =>
    rw [inserted_cons, List.count_append, ih]
    cases part with
    | sign c => simp [insert]
    | hole q => by_cases same : q = p <;> simp [insert, same, count_map_sign]

theorem fill_text_append (p q : Placeholder) (value rest : Text) :
    Template.fill p value (q.text ++ rest) =
      (if p = q then value else q.text) ++ Template.fill p value rest := by
  by_cases same : p = q
  · rw [if_pos same, ← same]
    exact Text.replaceAll_pattern_append p.text_ne_nil value rest
  · rw [if_neg same]
    exact Text.replaceAll_append value (Placeholder.passed_over same rest)

theorem fill_source (value : Text) {parts : List Part} (none : accidents p parts = 0) :
    Template.fill p value (source parts) = source (inserted p value parts) := by
  induction parts with
  | nil => rfl
  | cons part rest ih =>
    rw [inserted_cons, source_append, source_cons]
    cases part with
    | sign c =>
      obtain ⟨here, later⟩ := Nat.add_eq_zero_iff.mp none
      have passed : Text.startsWith p.text (c :: source rest) = false := by simpa using here
      rw [← ih later]
      exact Text.replaceAll_cons value passed
    | hole q =>
      rw [← ih none, text, fill_text_append]
      by_cases same : p = q
      · simp [insert, same, source]
      · simp [insert, text, same, Ne.symm same, source]

theorem fill_eq (p : Placeholder) (value s : Text) :
    Template.fill p value s = source (inserted p value (cut s)) := by
  have filled := fill_source value (accidents_cut p s)
  rwa [source_cut] at filled

theorem source_inserted_text (p : Placeholder) (parts : List Part) :
    source (inserted p p.text parts) = source parts := by
  rw [source, write_inserted, Function.update_eq_self, source]

theorem fill_of_absent {s : Text} (absent : Text.contains p.text s = false) (value : Text) :
    Template.fill p value s = s := by
  have none : hole p ∉ cut s := by
    rw [← List.count_eq_zero, ← occurrences_text]
    exact (Text.occurrences_eq_zero_iff p.text_ne_nil s).mpr absent
  have same : write (Function.update Placeholder.text p value) (cut s) = source (cut s) := by
    refine List.flatMap_congr fun part member => ?_
    cases part with
    | sign c => rfl
    | hole q =>
      have other : q ≠ p := fun same => none (same ▸ member)
      simp [text, other]
  rw [fill_eq, source, write_inserted, same, source_cut]

theorem length_inserted (p : Placeholder) (value : Text) (parts : List Part) :
    (source (inserted p value parts)).length + parts.count (hole p) * p.text.length =
      (source parts).length + parts.count (hole p) * value.length := by
  induction parts with
  | nil => simp [inserted, source]
  | cons part rest ih =>
    rw [inserted_cons, source_append, source_cons, List.length_append, List.length_append, List.count_cons]
    cases part with
    | sign c =>
      simp only [insert, source, write_cons, write_nil, List.append_nil, beq_iff_eq, reduceCtorEq,
        if_false, Nat.add_zero] at ih ⊢
      omega
    | hole q =>
      by_cases same : q = p
      · simp only [insert, same, if_true, source, write_signs, text, beq_self_eq_true, Nat.succ_mul] at ih ⊢
        omega
      · simp only [insert, same, if_false, source, write_cons, write_nil, List.append_nil, text,
          beq_iff_eq, hole.injEq, Nat.add_zero] at ih ⊢
        omega

theorem length_fill (p : Placeholder) (value s : Text) :
    (Template.fill p value s).length + Text.occurrences p.text s * p.text.length =
      s.length + Text.occurrences p.text s * value.length := by
  have lengths := length_inserted p value (cut s)
  rwa [← fill_eq, source_cut, ← occurrences_text] at lengths

end Part

end SchemaClasses
