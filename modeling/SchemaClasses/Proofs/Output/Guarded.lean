import SchemaClasses.Proofs.Output.Substitution

set_option autoImplicit false

namespace SchemaClasses

namespace Part

variable {values : Placeholder → Text}

def isApart : List Part → Bool
  | [] => true
  | sign c :: _ => c != '\x7b'
  | hole _ :: _ => false

def guarded : List Part → Bool
  | [] => true
  | part :: rest => (part != sign '\x7b' || isApart rest) && guarded rest

theorem accidents_of_guarded {parts : List Part} (p : Placeholder) (guards : guarded parts = true) :
    accidents p parts = 0 := by
  obtain ⟨tail, braces⟩ : ∃ tail, p.text = '\x7b' :: '\x7b' :: tail := by
    cases p <;> exact ⟨_, rfl⟩
  induction parts with
  | nil => rfl
  | cons part rest ih =>
    obtain ⟨here, later⟩ := Bool.and_eq_true_iff.mp guards
    cases part with
    | hole q => exact ih later
    | sign c =>
      have absent : Text.startsWith p.text (c :: source rest) = false := by
        rw [← Bool.not_eq_true, Text.startsWith_iff, braces, List.cons_prefix_cons]
        rintro ⟨rfl, second⟩
        rcases rest with _ | ⟨d | q, rest⟩
        · cases List.prefix_nil.mp second
        · obtain ⟨rfl, -⟩ := List.cons_prefix_cons.mp second
          cases here
        · cases here
      rw [accidents, absent, ih later]
      rfl

theorem guarded_append_signs {value : Text} (free : '\x7b' ∉ value) {parts : List Part}
    (guards : guarded parts = true) : guarded (value.map sign ++ parts) = true := by
  induction value with
  | nil => exact guards
  | cons c value ih =>
    have other : c ≠ '\x7b' := fun same => free (same ▸ List.mem_cons_self)
    have later := ih fun member => free (List.mem_cons_of_mem _ member)
    simp [guarded, other, later]

theorem guarded_inserted (p : Placeholder) {value : Text} (free : '\x7b' ∉ value) {parts : List Part}
    (guards : guarded parts = true) : guarded (inserted p value parts) = true := by
  induction parts with
  | nil => rfl
  | cons part rest ih =>
    obtain ⟨here, later⟩ := Bool.and_eq_true_iff.mp guards
    have kept := ih later
    rw [inserted_cons]
    cases part with
    | sign c =>
      refine Bool.and_eq_true_iff.mpr ⟨?_, kept⟩
      rcases rest with _ | ⟨d | q, rest⟩
      · exact here
      · exact here
      · have other : c ≠ '\x7b' := by simpa [isApart] using here
        simp [other]
    | hole q =>
      by_cases same : q = p
      · simpa [insert, same] using guarded_append_signs free kept
      · simp [insert, same, guarded, kept]

theorem cut_newline_append (s rest : Text) :
    cut (s ++ '\n' :: rest) = cut s ++ sign '\n' :: cut rest := by
  have absent (p : Placeholder) : '\n' ∉ p.text := by cases p <;> decide
  induction s using Text.placeholder_induction with
  | nil =>
    refine cut_cons fun p found => ?_
    obtain ⟨c, tail, split⟩ := List.exists_cons_of_ne_nil p.text_ne_nil
    rw [split] at found
    obtain ⟨rfl, -⟩ := List.cons_prefix_cons.mp found
    exact absent p (split ▸ List.mem_cons_self)
  | hole p s ih => rw [List.append_assoc, cut_append, ih, cut_append, List.cons_append]
  | sign c s none ih =>
    have passed (p : Placeholder) : ¬ p.text <+: c :: (s ++ '\n' :: rest) := fun found =>
      none p (Text.prefix_of_prefix_append (absent p) found)
    rw [List.cons_append, cut_cons passed, ih, cut_cons none, List.cons_append]

theorem write_cut_joinWith (values : Placeholder → Text) (lines : List Text) :
    write values (cut (Text.joinWith '\n' lines)) =
      Text.joinWith '\n' (lines.map fun line => write values (cut line)) := by
  induction lines with
  | nil => rfl
  | cons line rest ih =>
    by_cases last : rest = []
    · rw [last]
      rfl
    · rw [Text.joinWith_cons '\n' line last, cut_newline_append, write_append, write_cons, ih, List.map_cons,
        Text.joinWith_cons '\n' _ (by simpa using last)]
      rfl

theorem guarded_newline {first second : List Part} (before : guarded first = true)
    (after : guarded second = true) : guarded (first ++ sign '\n' :: second) = true := by
  induction first with
  | nil => simp [guarded, after]
  | cons part rest ih =>
    obtain ⟨here, later⟩ := Bool.and_eq_true_iff.mp before
    refine Bool.and_eq_true_iff.mpr ⟨?_, ih later⟩
    rcases rest with _ | ⟨c | q, rest⟩
    · simp [isApart]
    · exact here
    · exact here

theorem guarded_cut_joinWith {lines : List Text} (each : ∀ line ∈ lines, guarded (cut line) = true) :
    guarded (cut (Text.joinWith '\n' lines)) = true := by
  induction lines with
  | nil => rfl
  | cons line rest ih =>
    obtain ⟨first, later⟩ := List.forall_mem_cons.mp each
    by_cases last : rest = []
    · rwa [last]
    · rw [Text.joinWith_cons '\n' line last, cut_newline_append]
      exact guarded_newline first (ih later)

def differs : Text → List Part → Bool
  | c :: word, sign d :: rest => c != d || differs word rest
  | _ :: _, [] => true
  | _, _ => false

theorem not_prefix_of_differs {word : Text} {parts : List Part} (other : differs word parts = true) :
    ¬ word <+: write values parts := by
  fun_induction differs word parts with
  | case1 c word d rest ih =>
    rw [write_cons, text, List.singleton_append, List.cons_prefix_cons]
    rintro ⟨rfl, within⟩
    exact ih (by simpa using other) within
  | case2 c word => simp
  | case3 => cases other

end Part

namespace Template

open SchemaClasses.Part

theorem render_of_guarded {template : Template} (guards : guarded (cut template.text) = true)
    {namespaceName : Text} {block : ClassBlock} (qualified : '\x7b' ∉ namespaceName)
    (named : '\x7b' ∉ block.name) :
    template.render namespaceName block = template.substitute namespaceName block := by
  have spaced := guarded_inserted .namespaceName qualified guards
  have first := keeps_className_iff.mpr (accidents_of_guarded .className spaced)
  have parts : template.withName namespaceName block.name =
      source (template.named namespaceName block.name) := withName_eq (.inr first)
  have filled := guarded_inserted .className named spaced
  have second := (keeps_properties_iff parts).mpr (accidents_of_guarded .properties filled)
  exact render_eq_substitute (.inr first) second

end Template

end SchemaClasses
