import Mathlib.Data.List.Basic
import SchemaClasses.Proofs.Source.LineForms

set_option autoImplicit false

namespace SchemaClasses

namespace Text

theorem words_append {c : Char} (blank : isBlank c = true) (s rest : Text) :
    words (s ++ c :: rest) = words s ++ words rest := by
  rw [words, splitWhere_append blank, List.filter_append]
  rfl

theorem words_blanks_append {blanks : Text} (blank : ∀ c ∈ blanks, isBlank c = true) (s : Text) :
    words (blanks ++ s) = words s := by
  induction blanks with
  | nil => rfl
  | cons c rest ih =>
    obtain ⟨here, later⟩ := List.forall_mem_cons.mp blank
    exact (words_append here [] (rest ++ s)).trans (ih later)

theorem words_word {s : Text} (nonempty : s ≠ []) (visible : ∀ c ∈ s, isBlank c = false) :
    words s = [s] := by
  have whole : splitWhere isBlank s = [s] := by
    clear nonempty
    induction s with
    | nil => rfl
    | cons c rest ih =>
      obtain ⟨here, later⟩ := List.forall_mem_cons.mp visible
      simp [splitWhere, here, ih later, consFirst]
  simp [words, whole, nonempty]

theorem words_map_foldCase (s : Text) :
    words (s.map foldCase) = (words s).map (List.map foldCase) := by
  have cut : splitWhere isBlank (s.map foldCase) =
      (splitWhere isBlank s).map (List.map foldCase) := by
    induction s with
    | nil => rfl
    | cons c rest ih =>
      rw [List.map_cons, splitWhere, splitWhere, isBlank_foldCase, ih]
      split
      · rfl
      · cases splitWhere isBlank rest <;> rfl
  rw [words, words, cut, List.filter_map]
  congr 1
  apply List.filter_congr
  intro piece _
  cases piece <;> rfl

end Text

namespace LineKind

open Text

theorem headerName?_eq_some {line name : Text} (found : headerName? line = some name) :
    ∃ read blanks rest, line = read ++ (blanks ++ (name ++ rest)) ∧
      read.map foldCase = "public partial class".toList ∧
      blanks ≠ [] ∧ (∀ c ∈ blanks, isBlank c = true) ∧
      (∀ c ∈ (name ++ rest).head?, isBlank c = false) ∧
      (∀ c ∈ name, isBlank c = false) ∧ ∀ c ∈ rest.head?, isBlank c = true := by
  unfold headerName? at found
  cases dropped : dropStartFolded? "public partial class".toList line with
  | none =>
    rw [dropped] at found
    cases found
  | some after =>
    rw [dropped] at found
    obtain ⟨read, rfl, folded⟩ := dropStartFolded?_eq_some_iff.mp dropped
    simp only at found
    split at found
    · cases found
    · rename_i form
      obtain rfl := Option.some.inj found
      refine ⟨read, indentOf after, (trimStart after).dropWhile fun c => !isBlank c, ?_, folded,
        fun empty => form (.inl empty), fun _ => isBlank_of_mem_indentOf, ?_, ?_, ?_⟩
      · rw [List.takeWhile_append_dropWhile, indentOf_append_trimStart]
      · intro c first
        rw [List.takeWhile_append_dropWhile] at first
        exact visible_of_head?_trimStart first
      · intro c member
        simpa using List.all_eq_true.mp List.all_takeWhile c member
      · intro c first
        have stops := List.head?_dropWhile_not (fun c => !isBlank c) (trimStart after)
        rw [first] at stops
        simpa using stops

theorem headerName?_of_ofTrimmed {line name : Text} (header : ofTrimmed line = .classHeader name) :
    headerName? line = some name := by
  unfold ofTrimmed at header
  split at header
  · cases header
  · split at header
    · cases header
    · cases found : headerName? line with
      | none =>
        rw [found] at header
        simp only at header
        split at header
        · cases header
        · split at header
          · cases header
          · split at header <;> cases header
      | some other =>
        rw [found] at header
        cases header
        rfl

theorem fourth_word_of_header {line name : Text} (header : ofLine line = .classHeader name) :
    (words (trim line))[3]? = some name ∧ name ≠ [] ∧ ∀ c ∈ name, isBlank c = false := by
  obtain ⟨read, blanks, rest, whole, folded, nonempty, blank, starts, visible, stops⟩ :=
    headerName?_eq_some (headerName?_of_ofTrimmed header)
  have named : name ≠ [] := by
    rintro rfl
    cases rest with
    | cons c rest =>
      have both := starts c rfl
      rw [stops c rfl] at both
      cases both
    | nil =>
      -- The line would end in a blank.
      obtain ⟨before, last, rfl⟩ := List.eq_nil_or_concat blanks |>.resolve_left nonempty
      have ending : (trim line).getLast? = some last := by
        rw [whole]
        simp
      have hidden := blank last (by simp)
      rw [visible_of_getLast?_trim ending] at hidden
      cases hidden
  refine ⟨?_, named, visible⟩
  have three : (words read).length = 3 := by
    rw [← List.length_map (f := List.map foldCase), ← words_map_foldCase, folded]
    decide
  have behind : words (name ++ rest) = name :: words rest := by
    cases rest with
    | nil => rw [List.append_nil, words_word named visible]; rfl
    | cons c rest =>
      have blankStart : words (c :: rest) = words rest := words_append (stops c rfl) [] rest
      rw [words_append (stops c rfl), words_word named visible, blankStart]
      rfl
  obtain ⟨first, others, rfl⟩ := List.exists_cons_of_ne_nil nonempty
  obtain ⟨here, later⟩ := List.forall_mem_cons.mp blank
  rw [whole, List.cons_append, words_append here, words_blanks_append later, behind,
    List.getElem?_append_right (by omega), three]
  rfl

theorem exists_header_iff (name : Text) : (∃ line, ofLine line = .classHeader name) ↔
    name ≠ [] ∧ ∀ c ∈ name, isBlank c = false := by
  constructor
  · rintro ⟨line, header⟩
    exact (fourth_word_of_header header).2
  · rintro ⟨nonempty, visible⟩
    exact ⟨_, ofLine_header (List.forall_mem_nil _) visible nonempty⟩

end LineKind

end SchemaClasses
