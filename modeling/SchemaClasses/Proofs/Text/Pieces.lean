import SchemaClasses.Text.Basic

set_option autoImplicit false

namespace SchemaClasses.Text

theorem startsWith_iff {pattern s : Text} : startsWith pattern s = true ↔ pattern <+: s := by
  simp only [startsWith, Option.isSome_iff_exists, dropStart?_eq_some_iff, List.IsPrefix]
  exact exists_congr fun rest => eq_comm

theorem contains_iff {pattern s : Text} : contains pattern s = true ↔ pattern <:+: s := by
  induction s with
  | nil => simp [contains, startsWith_iff]
  | cons c rest ih => simp [contains, startsWith_iff, ih, List.infix_cons_iff]

theorem consFirst_append (c : Char) {first : List Text} (nonempty : first ≠ [])
    (second : List Text) : consFirst c (first ++ second) = consFirst c first ++ second := by
  cases first with
  | nil => exact absurd rfl nonempty
  | cons piece pieces => rfl

theorem splitWhere_ne_nil (separates : Char → Bool) (s : Text) : splitWhere separates s ≠ [] := by
  cases s with
  | nil => simp [splitWhere]
  | cons c rest =>
    rw [splitWhere]
    split
    · simp
    · cases splitWhere separates rest <;> simp [consFirst]

theorem splitWhere_append {separates : Char → Bool} {c : Char} (between : separates c = true)
    (s rest : Text) : splitWhere separates (s ++ c :: rest) =
      splitWhere separates s ++ splitWhere separates rest := by
  induction s with
  | nil => simp [splitWhere, between]
  | cons d tail ih =>
    by_cases here : separates d = true
    · simp [splitWhere, here, ih]
    · simp [splitWhere, here, ih, consFirst_append d (splitWhere_ne_nil separates tail)]

theorem splitOn_append (sep : Char) (s rest : Text) :
    splitOn sep (s ++ sep :: rest) = splitOn sep s ++ splitOn sep rest := by
  rw [splitOn, splitWhere_append (by simp)]
  rfl

theorem joinWith_cons (sep : Char) (piece : Text) {pieces : List Text} (nonempty : pieces ≠ []) :
    joinWith sep (piece :: pieces) = piece ++ sep :: joinWith sep pieces := by
  cases pieces with
  | nil => exact absurd rfl nonempty
  | cons next rest => rfl

theorem joinWith_append (sep : Char) (first : List Text) {second : List Text}
    (nonempty : second ≠ []) :
    joinWith sep (first ++ second) = joinWith sep (first ++ [[]]) ++ joinWith sep second := by
  induction first with
  | nil => rfl
  | cons piece rest ih =>
    rw [List.cons_append, List.cons_append, joinWith_cons sep piece (by simp [nonempty]), ih,
      joinWith_cons sep piece (by simp)]
    simp

theorem joinWith_isPrefix (sep : Char) (first second : List Text) :
    joinWith sep first <+: joinWith sep (first ++ second) := by
  induction first with
  | nil => exact List.nil_prefix
  | cons piece rest ih =>
    by_cases last : rest = []
    · rw [last, List.singleton_append]
      by_cases none : second = []
      · exact none ▸ List.prefix_rfl
      · rw [joinWith_cons sep piece none]
        exact List.prefix_append _ _
    · rw [List.cons_append, joinWith_cons sep piece last, joinWith_cons sep piece (by simp [last])]
      exact (List.prefix_append_right_inj piece).mpr (List.cons_prefix_cons.mpr ⟨rfl, ih⟩)

theorem exists_splitOn_append {sep : Char} {s : Text} (ended : s = [] ∨ s.getLast? = some sep) :
    ∃ pieces, ∀ rest, splitOn sep (s ++ rest) = pieces ++ splitOn sep rest := by
  rcases ended with rfl | last
  · exact ⟨[], fun rest => rfl⟩
  · obtain ⟨before, rfl⟩ := List.getLast?_eq_some_iff.mp last
    refine ⟨splitOn sep before, fun rest => ?_⟩
    rw [List.append_assoc, List.singleton_append, splitOn_append]

theorem splitOn_joinWith_flatMap (sep : Char) {pieces : List Text} (nonempty : pieces ≠ []) :
    splitOn sep (joinWith sep pieces) = pieces.flatMap (splitOn sep) := by
  match pieces, nonempty with
  | [piece], _ => simp [joinWith]
  | piece :: next :: rest, _ =>
    have later : splitOn sep (joinWith sep (next :: rest)) = (next :: rest).flatMap (splitOn sep) :=
      splitOn_joinWith_flatMap sep (by simp)
    rw [joinWith, splitOn_append, later]
    rfl

theorem separates_of_mem_splitWhere {separates : Char → Bool} {s piece : Text} {c : Char}
    (member : piece ∈ splitWhere separates s) (inside : c ∈ piece) : separates c = false := by
  induction s generalizing piece with
  | nil => simp_all [splitWhere]
  | cons d rest ih =>
    rw [splitWhere] at member
    split at member
    · rcases List.mem_cons.mp member with rfl | later
      · contradiction
      · exact ih later inside
    · cases pieces : splitWhere separates rest with
      | nil => exact absurd pieces (splitWhere_ne_nil separates rest)
      | cons first others =>
        rw [pieces, consFirst] at member
        rcases List.mem_cons.mp member with rfl | later
        · rcases List.mem_cons.mp inside with rfl | within
          · simpa using ‹¬ separates _ = true›
          · exact ih (by simp [pieces]) within
        · exact ih (by simp [pieces, later]) inside

theorem notMem_of_mem_splitOn {sep : Char} {s piece : Text} (member : piece ∈ splitOn sep s) :
    sep ∉ piece := by
  intro inside
  simpa using separates_of_mem_splitWhere member inside

theorem mem_joinWith {sep c : Char} {piece : Text} {pieces : List Text} (member : piece ∈ pieces)
    (inside : c ∈ piece) : c ∈ joinWith sep pieces := by
  match pieces, member with
  | [only], member =>
    obtain rfl := List.mem_singleton.mp member
    exact inside
  | first :: next :: rest, member =>
    rw [joinWith]
    rcases List.mem_cons.mp member with rfl | later
    · exact List.mem_append_left _ inside
    · exact List.mem_append_right _ (List.mem_cons_of_mem _ (mem_joinWith later inside))

theorem notMem_joinWith {sep c : Char} (other : c ≠ sep) {pieces : List Text}
    (absent : ∀ piece ∈ pieces, c ∉ piece) : c ∉ joinWith sep pieces := by
  fun_induction joinWith sep pieces with
  | case1 => exact List.not_mem_nil
  | case2 piece => exact absent piece List.mem_cons_self
  | case3 piece next rest ih =>
    have later := ih fun piece member => absent piece (List.mem_cons_of_mem _ member)
    simpa [other, later] using absent piece List.mem_cons_self

theorem mem_of_mem_splitOn {sep c : Char} {s piece : Text} (member : piece ∈ splitOn sep s)
    (inside : c ∈ piece) : c ∈ s := by
  rw [← joinWith_splitOn sep s]
  exact mem_joinWith member inside

theorem mem_of_mem_take_splitOn {sep c : Char} {count : Nat} {before after piece : Text}
    (enough : count ≤ before.count sep)
    (member : piece ∈ (splitOn sep (before ++ after)).take count) (inside : c ∈ piece) :
    c ∈ before := by
  induction before generalizing count piece with
  | nil =>
    obtain rfl := Nat.le_zero.mp enough
    contradiction
  | cons d rest ih =>
    cases count with
    | zero => contradiction
    | succ count =>
      rw [List.cons_append, splitOn_cons] at member
      by_cases same : d = sep
      · rw [if_pos same, List.take_succ_cons] at member
        rw [same, List.count_cons_self] at enough
        rcases List.mem_cons.mp member with rfl | later
        · contradiction
        · exact List.mem_cons_of_mem _ (ih (by omega) later inside)
      · rw [if_neg same] at member
        rw [List.count_cons_of_ne same] at enough
        cases pieces : splitOn sep (rest ++ after) with
        | nil => exact absurd pieces (splitOn_ne_nil sep _)
        | cons first others =>
          have behind {other : Text} (listed : other ∈ (first :: others).take (count + 1))
              (within : c ∈ other) : c ∈ d :: rest :=
            List.mem_cons_of_mem _ (ih enough (pieces ▸ listed) within)
          rw [pieces, consFirst, List.take_succ_cons] at member
          rcases List.mem_cons.mp member with rfl | later
          · rcases List.mem_cons.mp inside with rfl | within
            · exact List.mem_cons_self
            · exact behind List.mem_cons_self within
          · exact behind (List.mem_cons_of_mem _ later) inside

theorem length_splitOn (sep : Char) (s : Text) : (splitOn sep s).length = s.count sep + 1 := by
  induction s with
  | nil => rfl
  | cons c rest ih =>
    rw [splitOn_cons]
    by_cases same : c = sep
    · simp [same, ih]
    · cases pieces : splitOn sep rest with
      | nil => exact absurd pieces (splitOn_ne_nil sep rest)
      | cons first others => simp_all [consFirst]

theorem splitOnce?_isSome {sep : Char} {s : Text} (member : sep ∈ s) :
    (splitOnce? sep s).isSome = true := by
  induction s with
  | nil => contradiction
  | cons c rest ih =>
    by_cases same : c = sep
    · simp [splitOnce?, same]
    · have later : sep ∈ rest := by simpa [Ne.symm same] using member
      simp [splitOnce?, same, ih later]

theorem splitOnce?_append {sep : Char} {before : Text} (absent : sep ∉ before) (after : Text) :
    splitOnce? sep (before ++ sep :: after) = some (before, after) := by
  induction before with
  | nil => simp [splitOnce?]
  | cons c before ih =>
    obtain ⟨other, later⟩ : sep ≠ c ∧ sep ∉ before := by simpa using absent
    simp [splitOnce?, Ne.symm other, ih later]

theorem splitOnce?_eq_some_iff {sep : Char} {s before after : Text} :
    splitOnce? sep s = some (before, after) ↔ sep ∉ before ∧ s = before ++ sep :: after := by
  constructor
  · intro cut
    induction s generalizing before with
    | nil => cases cut
    | cons c rest ih =>
      rw [splitOnce?] at cut
      split at cut
      · rename_i same
        cases cut
        exact ⟨List.not_mem_nil, by rw [same]; rfl⟩
      · rename_i other
        obtain ⟨⟨front, behind⟩, inner, same⟩ := Option.map_eq_some_iff.mp cut
        cases same
        obtain ⟨absent, rfl⟩ := ih inner
        exact ⟨by simpa using ⟨Ne.symm other, absent⟩, rfl⟩
  · rintro ⟨absent, rfl⟩
    exact splitOnce?_append absent after

theorem mem_of_mem_replaceFrom {pattern value s : Text} {skip : Nat} {c : Char}
    (member : c ∈ replaceFrom pattern value skip s) : c ∈ value ∨ c ∈ s := by
  induction s generalizing skip with
  | nil => cases skip <;> simp [replaceFrom] at member
  | cons d rest ih =>
    cases skip with
    | zero =>
      rw [replaceFrom] at member
      split at member
      · rcases List.mem_append.mp member with new | later
        · exact .inl new
        · exact (ih later).imp_right (List.mem_cons_of_mem _)
      · rcases List.mem_cons.mp member with rfl | later
        · exact .inr List.mem_cons_self
        · exact (ih later).imp_right (List.mem_cons_of_mem _)
    | succ skip => exact (ih member).imp_right (List.mem_cons_of_mem _)

end SchemaClasses.Text
