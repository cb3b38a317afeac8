import SchemaClasses.Proofs.Text.Pieces

set_option autoImplicit false

namespace SchemaClasses.Text

def occurrences (pattern : Text) : Text → Nat
  | [] => 0
  | c :: rest => (if startsWith pattern (c :: rest) then 1 else 0) + occurrences pattern rest

/-- The pattern starts somewhere within the first text, wherever it ends. -/
def StartsWithin (pattern s rest : Text) : Prop :=
  ∃ after, after <:+ s ∧ after ≠ [] ∧ pattern <+: after ++ rest

theorem StartsWithin.cons {pattern s rest : Text} (c : Char) (starts : StartsWithin pattern s rest) :
    StartsWithin pattern (c :: s) rest := by
  obtain ⟨after, inside, nonempty, found⟩ := starts
  exact ⟨after, inside.trans (List.suffix_cons c s), nonempty, found⟩

theorem startsWith_eq_false {pattern s rest : Text} {c : Char}
    (passed : ¬ StartsWithin pattern (c :: s) rest) : startsWith pattern (c :: (s ++ rest)) = false := by
  rw [← Bool.not_eq_true, startsWith_iff]
  exact fun found => passed ⟨c :: s, List.suffix_rfl, by simp, found⟩

theorem occurrences_append {pattern s rest : Text} (passed : ¬ StartsWithin pattern s rest) :
    occurrences pattern (s ++ rest) = occurrences pattern rest := by
  induction s with
  | nil => rfl
  | cons c s ih =>
    rw [List.cons_append, occurrences, startsWith_eq_false passed, ih fun later => passed (later.cons c)]
    simp

theorem occurrences_eq_zero_iff {pattern : Text} (nonempty : pattern ≠ []) (s : Text) :
    occurrences pattern s = 0 ↔ contains pattern s = false := by
  induction s with
  | nil =>
    have none : startsWith pattern [] = false := by
      cases pattern with
      | nil => exact absurd rfl nonempty
      | cons c pattern => rfl
    simp [occurrences, contains, none]
  | cons c rest ih => simp [occurrences, contains, ih]

theorem prefix_of_prefix_append {pattern s rest : Text} {c : Char} (absent : c ∉ pattern)
    (found : pattern <+: s ++ c :: rest) : pattern <+: s := by
  rcases List.prefix_or_prefix_of_prefix found (List.prefix_append s _) with within | ⟨more, rfl⟩
  · exact within
  · cases more with
    | nil => simp
    | cons d more =>
      obtain ⟨rfl, -⟩ := List.cons_prefix_cons.mp ((List.prefix_append_right_inj s).mp found)
      simp at absent

theorem replaceFrom_eq (pattern value : Text) (skip : Nat) (s : Text) :
    replaceFrom pattern value skip s = replaceAll pattern value (s.drop skip) := by
  induction skip generalizing s with
  | zero => rfl
  | succ skip ih =>
    cases s with
    | nil => rfl
    | cons c rest => exact ih rest

theorem replaceAll_cons {pattern rest : Text} {c : Char} (value : Text)
    (passed : startsWith pattern (c :: rest) = false) :
    replaceAll pattern value (c :: rest) = c :: replaceAll pattern value rest := by
  rw [replaceAll, replaceFrom, if_neg (by simp [passed])]
  rfl

theorem replaceAll_append {pattern s rest : Text} (value : Text)
    (passed : ¬ StartsWithin pattern s rest) :
    replaceAll pattern value (s ++ rest) = s ++ replaceAll pattern value rest := by
  induction s with
  | nil => rfl
  | cons c s ih =>
    rw [List.cons_append, replaceAll_cons value (startsWith_eq_false passed),
      ih fun later => passed (later.cons c), List.cons_append]

theorem replaceAll_pattern_append {pattern : Text} (nonempty : pattern ≠ []) (value rest : Text) :
    replaceAll pattern value (pattern ++ rest) = value ++ replaceAll pattern value rest := by
  obtain ⟨c, tail, rfl⟩ := List.exists_cons_of_ne_nil nonempty
  have found : startsWith (c :: tail) (c :: (tail ++ rest)) = true :=
    startsWith_iff.mpr (List.prefix_append _ _)
  rw [List.cons_append, replaceAll, replaceFrom, if_pos found, replaceFrom_eq]
  simp

theorem replaceAll_singleton (sign : Char) (value s : Text) :
    replaceAll [sign] value s = s.flatMap fun c => if c = sign then value else [c] := by
  induction s with
  | nil => rfl
  | cons c rest ih =>
    rw [List.flatMap_cons, ← ih]
    by_cases same : c = sign
    · rw [if_pos same, same]
      exact replaceAll_pattern_append (List.cons_ne_nil sign []) value rest
    · rw [if_neg same]
      have passed : startsWith [sign] (c :: rest) = false := by
        simp [startsWith, dropStart?, Ne.symm same]
      exact replaceAll_cons value passed

end SchemaClasses.Text
