import SchemaClasses.Proofs.Text.Plain
import SchemaClasses.Text.Characters

set_option autoImplicit false

namespace SchemaClasses.Text

theorem toLower_cases (c : Char) :
    c.toLower = c ∨ 65 ≤ c.toNat ∧ c.toNat ≤ 90 ∧ c.toLower.toNat = c.toNat + 32 := by
  unfold Char.toLower
  split
  · rename_i upper
    have least : 65 ≤ c.val.toNat := UInt32.le_iff_toNat_le.mp upper.1
    have most : c.val.toNat ≤ 90 := UInt32.le_iff_toNat_le.mp upper.2
    refine .inr ⟨least, most, ?_⟩
    change (c.val + ('a'.val - 'A'.val)).toNat = c.val.toNat + 32
    rw [UInt32.toNat_add, show ('a'.val - 'A'.val).toNat = 32 by decide]
    exact Nat.mod_eq_of_lt (by omega)
  · exact .inl rfl

theorem toLower_eq_of_lt {c d : Char} (below : d.toNat < 65) : c.toLower = d ↔ c = d := by
  rcases toLower_cases c with same | ⟨least, -, moved⟩
  · rw [same]
  · constructor <;> rintro rfl <;> omega

theorem foldCase_eq_of_lt {c d : Char} (below : d.toNat < 65) : foldCase c = d ↔ c = d := by
  unfold foldCase
  split
  · rename_i long
    subst long
    constructor <;> rintro rfl <;> exact absurd below (by decide)
  · split
    · rename_i kelvin
      subst kelvin
      constructor <;> rintro rfl <;> exact absurd below (by decide)
    · exact toLower_eq_of_lt below

set_option maxRecDepth 4000 in
theorem foldCase_eq_self_or_isAlpha (c : Char) : foldCase c = c ∨ (foldCase c).isAlpha = true := by
  unfold foldCase
  split
  · exact .inr (by decide)
  · split
    · exact .inr (by decide)
    · refine (toLower_cases c).imp id fun ⟨least, most, moved⟩ => ?_
      exact forall_ascii (P := fun d => 97 ≤ d.toNat → d.toNat ≤ 122 → d.isAlpha = true) (by decide)
        (by omega) (by omega) (by omega)

theorem eq_of_foldCase {c d : Char} (noLetter : d.isAlpha = false) (folded : foldCase c = d) :
    c = d := by
  rcases foldCase_eq_self_or_isAlpha c with same | letter
  · exact same.symm.trans folded
  · rw [folded, noLetter] at letter
    cases letter

theorem isBlank_foldCase (c : Char) : isBlank (foldCase c) = isBlank c := by
  unfold foldCase
  split
  · rename_i long
    subst long
    decide
  · split
    · rename_i kelvin
      subst kelvin
      decide
    · rcases toLower_cases c with same | ⟨least, most, moved⟩
      · rw [same]
      · -- No blank is a capital or a small letter.
        rw [Bool.eq_iff_iff]
        simp only [isBlank, moved, Bool.or_eq_true, Bool.and_eq_true, decide_eq_true_eq, beq_iff_eq]
        omega

theorem visible_of_isLetter {c : Char} (letter : isLetter c = true) : isBlank c = false := by
  rw [← isBlank_foldCase]
  apply visible_of_isPlain
  rw [isLetter] at letter
  simp [isPlain, Char.isAlphanum, letter]

theorem visible_of_isWordPart {c : Char} (part : isWordPart c = true) : isBlank c = false := by
  simp only [isWordPart, isWordStart, Bool.or_eq_true, beq_iff_eq] at part
  rcases part with (letter | rfl) | digit
  · exact visible_of_isLetter letter
  · decide
  · exact visible_of_isPlain (by simp [isPlain, Char.isAlphanum, digit])

theorem isTypePart_of_isWordPart {c : Char} (part : isWordPart c = true) : isTypePart c = true := by
  simp only [isWordPart, isWordStart, Bool.or_eq_true] at part
  rcases part with (letter | underscore) | digit
  · simp [isTypePart, letter]
  · simp [isTypePart, underscore]
  · simp [isTypePart, digit]

theorem ascii_of_isLetter {c : Char} (letter : isLetter c = true) :
    c.toNat < 128 ∨ c = '\u017f' ∨ c = '\u212a' := by
  unfold isLetter foldCase at letter
  split at letter
  · exact .inr (.inl ‹_›)
  · split at letter
    · exact .inr (.inr ‹_›)
    · left
      unfold Char.toLower at letter
      split at letter
      · rename_i upper
        have most : c.val.toNat ≤ 90 := UInt32.le_iff_toNat_le.mp upper.2
        change c.val.toNat < 128
        omega
      · exact ascii_of_isAlphanum (by simp [Char.isAlphanum, letter])

theorem count_map_foldCase {d : Char} (below : d.toNat < 65) (s : Text) :
    (s.map foldCase).count d = s.count d := by
  induction s with
  | nil => rfl
  | cons c rest ih =>
    by_cases same : c = d <;> simp [List.count_cons, ih, foldCase_eq_of_lt below, same]

theorem dropStartFolded?_eq_some_iff {pattern s rest : Text} :
    dropStartFolded? pattern s = some rest ↔
      ∃ read : Text, s = read ++ rest ∧ read.map foldCase = pattern := by
  induction pattern generalizing s with
  | nil => simp [dropStartFolded?]
  | cons p pattern ih =>
    cases s with
    | nil => simp [dropStartFolded?]
    | cons c s =>
      by_cases same : p = foldCase c
      · rw [dropStartFolded?, if_pos same, ih]
        constructor
        · rintro ⟨read, rfl, rfl⟩
          exact ⟨c :: read, rfl, by simp [same]⟩
        · rintro ⟨read, split, folded⟩
          cases read with
          | nil => simp at folded
          | cons d read =>
            obtain ⟨rfl, rest⟩ := List.cons.inj split
            exact ⟨read, rest, by simpa [same] using folded⟩
      · simp only [dropStartFolded?, if_neg same, false_iff, reduceCtorEq]
        rintro ⟨read, split, folded⟩
        cases read with
        | nil => simp at folded
        | cons d read =>
          obtain ⟨rfl, -⟩ := List.cons.inj split
          exact same (by simpa using (List.cons.inj folded).1.symm)

def Run (p : Char → Bool) (s : Text) : Prop := s ≠ [] ∧ ∀ c ∈ s, p c = true

theorem run_space : Run isBlank [' '] := ⟨List.cons_ne_nil _ _, List.forall_mem_singleton.mpr rfl⟩

theorem takeRun?_eq_some_iff {p : Char → Bool} {s run rest : Text} :
    takeRun? p s = some (run, rest) ↔
      s = run ++ rest ∧ Run p run ∧ ∀ c ∈ rest.head?, p c = false := by
  constructor
  · intro taken
    unfold takeRun? at taken
    split at taken
    · cases taken
    · rename_i nonempty
      obtain ⟨rfl, rfl⟩ := Prod.mk.inj (Option.some.inj taken)
      refine ⟨List.takeWhile_append_dropWhile.symm, ⟨nonempty,
        fun c => List.all_eq_true.mp List.all_takeWhile c⟩, fun c first => ?_⟩
      have stops := List.head?_dropWhile_not p s
      rw [first] at stops
      simpa using stops
  · rintro ⟨rfl, ⟨nonempty, all⟩, stops⟩
    have taken : (run ++ rest).takeWhile p = run ∧ (run ++ rest).dropWhile p = rest := by
      rw [List.takeWhile_append_of_pos all, List.dropWhile_append_of_pos all]
      cases rest with
      | nil => simp
      | cons c rest => simp [stops c rfl]
    rw [takeRun?, taken.1, taken.2]
    split
    · contradiction
    · rfl

end SchemaClasses.Text
