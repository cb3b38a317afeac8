import SchemaClasses.Proofs.Text.Pieces
import SchemaClasses.Text.Characters

set_option autoImplicit false

namespace SchemaClasses.Text

theorem dropEndWhile_isPrefix (p : Char → Bool) (s : Text) : dropEndWhile p s <+: s := by
  rw [← List.reverse_suffix, dropEndWhile, List.reverse_reverse]
  exact List.dropWhile_suffix p

theorem exists_dropEndWhile (p : Char → Bool) (s : Text) :
    ∃ rest, s = dropEndWhile p s ++ rest ∧ ∀ c ∈ rest, p c = true := by
  refine ⟨(s.reverse.takeWhile p).reverse, ?_, ?_⟩
  · rw [dropEndWhile, ← List.reverse_append, List.takeWhile_append_dropWhile, List.reverse_reverse]
  · intro c member
    exact List.all_eq_true.mp List.all_takeWhile c (List.mem_reverse.mp member)

theorem trimStart_suffix (s : Text) : trimStart s <:+ s := List.dropWhile_suffix isBlank

theorem trimEnd_isPrefix (s : Text) : trimEnd s <+: s := dropEndWhile_isPrefix isBlank s

theorem trim_isInfix (s : Text) : trim s <:+: s :=
  (trimEnd_isPrefix _).isInfix.trans (trimStart_suffix s).isInfix

theorem indentOf_isPrefix (s : Text) : indentOf s <+: s := List.takeWhile_prefix isBlank

theorem isBlank_of_mem_indentOf {c : Char} {s : Text} (member : c ∈ indentOf s) :
    isBlank c = true := by
  have all := List.all_takeWhile (p := isBlank) (l := s)
  exact List.all_eq_true.mp all c member

theorem trimStart_append {blanks : Text} (blank : ∀ c ∈ blanks, isBlank c = true) (s : Text) :
    trimStart (blanks ++ s) = trimStart s :=
  List.dropWhile_append_of_pos blank

theorem trimStart_cons {c : Char} (visible : isBlank c = false) (s : Text) :
    trimStart (c :: s) = c :: s := by
  simp [trimStart, visible]

theorem trimStart_gap {gap s : Text} (blank : ∀ c ∈ gap, isBlank c = true)
    (visible : ∀ c ∈ s.head?, isBlank c = false) : trimStart (gap ++ s) = s := by
  rw [trimStart_append blank]
  cases s with
  | nil => rfl
  | cons c rest => exact trimStart_cons (visible c rfl) rest

theorem indentOf_gap {gap s : Text} (blank : ∀ c ∈ gap, isBlank c = true)
    (visible : ∀ c ∈ s.head?, isBlank c = false) : indentOf (gap ++ s) = gap := by
  rw [indentOf, List.takeWhile_append_of_pos blank]
  cases s with
  | nil => simp
  | cons c rest => simp [visible c rfl]

theorem splitOn_word {word : Text} (visible : ∀ c ∈ word, isBlank c = false) (rest : Text) :
    splitOn ' ' (word ++ ' ' :: rest) = word :: splitOn ' ' rest := by
  have whole : splitOn ' ' word = [word] :=
    splitOn_of_notMem fun member => absurd (visible ' ' member) (by decide)
  rw [splitOn_append, whole, List.singleton_append]

theorem eq_of_append_blank {one two first second : Text} {b d : Char}
    (visible : ∀ c ∈ one, isBlank c = false) (also : ∀ c ∈ two, isBlank c = false)
    (blank : isBlank b = true) (closed : isBlank d = true)
    (split : one ++ b :: first = two ++ d :: second) : one = two ∧ b = d ∧ first = second := by
  induction one generalizing two with
  | nil =>
    cases two with
    | nil => exact ⟨rfl, List.cons.inj split⟩
    | cons e two =>
      rw [(List.cons.inj split).1, also e List.mem_cons_self] at blank
      cases blank
  | cons e one ih =>
    obtain ⟨here, later⟩ := List.forall_mem_cons.mp visible
    cases two with
    | nil =>
      rw [← (List.cons.inj split).1, here] at closed
      cases closed
    | cons f two =>
      obtain ⟨rfl, behind⟩ := List.cons.inj split
      obtain ⟨rfl, rest⟩ := ih later (List.forall_mem_cons.mp also).2 behind
      exact ⟨rfl, rest⟩

theorem trimEnd_concat {c : Char} (visible : isBlank c = false) (s : Text) :
    trimEnd (s ++ [c]) = s ++ [c] := by
  simp [trimEnd, dropEndWhile, visible]

theorem trimEnd_blank {c : Char} (blank : isBlank c = true) (s : Text) :
    trimEnd (s ++ [c]) = trimEnd s := by
  simp [trimEnd, dropEndWhile, blank]

theorem trim_blank {c : Char} (blank : isBlank c = true) (s : Text) :
    trim (s ++ [c]) = trim s := by
  have start : trimStart (s ++ [c]) = trimStart s ++ [c] ∨
      trimStart (s ++ [c]) = trimStart s := by
    simp only [trimStart, List.dropWhile_append]
    split
    · rename_i none
      exact .inr (by simp [List.isEmpty_iff.mp none, blank])
    · exact .inl rfl
  rcases start with longer | same
  · rw [trim, longer, trimEnd_blank blank]
    rfl
  · rw [trim, same]
    rfl

theorem trim_append_blanks {blanks : Text} (blank : ∀ c ∈ blanks, isBlank c = true) (s : Text) :
    trim (s ++ blanks) = trim s := by
  induction blanks generalizing s with
  | nil => rw [List.append_nil]
  | cons c rest ih =>
    obtain ⟨here, later⟩ := List.forall_mem_cons.mp blank
    rw [← List.singleton_append, ← List.append_assoc, ih later, trim_blank here]

theorem trim_concat {c : Char} (visible : isBlank c = false) (s : Text) :
    trim (s ++ [c]) = trimStart s ++ [c] := by
  have start : trimStart (s ++ [c]) = trimStart s ++ [c] := by
    simp only [trimStart, List.dropWhile_append]
    split <;> simp_all
  rw [trim, start, trimEnd_concat visible]

theorem trimEnd_cons {c : Char} (visible : isBlank c = false) (s : Text) :
    trimEnd (c :: s) = c :: trimEnd s := by
  simp only [trimEnd, dropEndWhile, List.reverse_cons, List.dropWhile_append]
  split <;> simp_all

theorem trimEnd_append {s rest : Text} (nonempty : trimEnd rest ≠ []) :
    trimEnd (s ++ rest) = s ++ trimEnd rest := by
  simp only [trimEnd, dropEndWhile, List.reverse_append, List.dropWhile_append] at nonempty ⊢
  split
  · rename_i none
    exact absurd (by rw [List.isEmpty_iff.mp none, List.reverse_nil]) nonempty
  · simp

theorem indentOf_trimEnd {blanks : Text} (blank : ∀ c ∈ blanks, isBlank c = true) {c : Char}
    (visible : isBlank c = false) (s : Text) : indentOf (trimEnd (blanks ++ c :: s)) = blanks := by
  rw [trimEnd_append (by simp [trimEnd_cons visible]), trimEnd_cons visible, indentOf,
    List.takeWhile_append_of_pos blank, List.takeWhile_cons_of_neg (by simp [visible]),
    List.append_nil]

theorem trim_append_cons {blanks : Text} (blank : ∀ c ∈ blanks, isBlank c = true) {c : Char}
    (visible : isBlank c = false) (s : Text) : trim (blanks ++ c :: s) = c :: trimEnd s := by
  rw [trim, trimStart_append blank, trimStart_cons visible, trimEnd_cons visible]

theorem visible_of_head?_trimStart {s : Text} {c : Char} (first : (trimStart s).head? = some c) :
    isBlank c = false := by
  have stops := List.head?_dropWhile_not isBlank s
  rw [← trimStart, first] at stops
  exact stops

theorem visible_of_trim_eq_cons {s rest : Text} {c : Char} (starts : trim s = c :: rest) :
    isBlank c = false := by
  obtain ⟨behind, whole⟩ := trimEnd_isPrefix (trimStart s)
  rw [← trim, starts] at whole
  have first : (trimStart s).head? = some c := by rw [← whole]; rfl
  exact visible_of_head?_trimStart first

theorem visible_of_getLast?_trim {s : Text} {c : Char} (last : (trim s).getLast? = some c) :
    isBlank c = false := by
  have stops := List.head?_dropWhile_not isBlank (trimStart s).reverse
  rw [trim, trimEnd, dropEndWhile, List.getLast?_reverse] at last
  rw [last] at stops
  exact stops

theorem trim_append {blanks s : Text} (blank : ∀ c ∈ blanks, isBlank c = true)
    (first : ∀ c ∈ s.head?, isBlank c = false) (last : ∀ c ∈ s.getLast?, isBlank c = false) :
    trim (blanks ++ s) = s := by
  have start : trimStart s = s := by
    cases s with
    | nil => rfl
    | cons c rest => exact trimStart_cons (first c rfl) rest
  have finish : trimEnd s = s := by
    obtain rfl | ⟨before, c, rfl⟩ := List.eq_nil_or_concat s
    · rfl
    · rw [List.concat_eq_append]
      exact trimEnd_concat (last c (by simp)) before
  rw [trim, trimStart_append blank, start, finish]

end SchemaClasses.Text
