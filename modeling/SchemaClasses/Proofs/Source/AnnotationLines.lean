import SchemaClasses.Proofs.Text.Pieces
import SchemaClasses.Source.Annotation

set_option autoImplicit false

namespace SchemaClasses.Annotation

/-- A bracket, the marker right behind it, and a closing bracket at the end of the line. -/
def MarkedBy (marker line : Text) : Prop :=
  ∃ before after : Text, dropReturn line = before ++ '[' :: marker ++ after ++ [']']

def Marked (markers : List Text) (line : Text) : Prop :=
  ∃ marker ∈ markers, MarkedBy marker line

theorem beforeClosing?_eq_some_iff {line body : Text} :
    beforeClosing? line = some body ↔ dropReturn line = body ++ [']'] := by
  unfold beforeClosing?
  constructor
  · intro found
    split at found
    · rename_i before reversed
      obtain rfl := Option.some.inj found
      simpa using congrArg List.reverse reversed
    · contradiction
  · intro ending
    simp [ending]

theorem marks_iff {marker line : Text} : marks marker line = true ↔ MarkedBy marker line := by
  constructor
  · intro marked
    unfold marks at marked
    split at marked
    · rename_i body found
      obtain ⟨before, after, same⟩ := Text.contains_iff.mp marked
      exact ⟨before, after, by rw [beforeClosing?_eq_some_iff.mp found, ← same]⟩
    · contradiction
  · rintro ⟨before, after, form⟩
    rw [marks, beforeClosing?_eq_some_iff.mpr form]
    exact Text.contains_iff.mpr ⟨before, after, rfl⟩

instance (marker line : Text) : Decidable (MarkedBy marker line) := decidable_of_iff _ marks_iff

instance (markers : List Text) (line : Text) : Decidable (Marked markers line) :=
  inferInstanceAs (Decidable (∃ marker ∈ markers, MarkedBy marker line))

@[simp] theorem marked_nil (line : Text) : ¬ Marked [] line := by simp [Marked]

@[simp] theorem marked_cons {marker line : Text} {markers : List Text} :
    Marked (marker :: markers) line ↔ MarkedBy marker line ∨ Marked markers line := by
  simp [Marked]

def remaining (markers : List Text) (lines : List Text) : List Text :=
  lines.dropLast.filter (fun line => ¬ Marked markers line) ++ lines.getLast?.toList

def unmarked (markers : List Text) (lines : List Text) : List Text :=
  lines.filter fun line => ¬ Marked markers line

def dropped (markers : List Text) (lines : List Text) : List Text :=
  lines.dropLast.filter fun line => Marked markers line

theorem remaining_cons (markers : List Text) (line next : Text) (rest : List Text) :
    remaining markers (line :: next :: rest) =
      if Marked markers line then remaining markers (next :: rest)
      else line :: remaining markers (next :: rest) := by
  by_cases marked : Marked markers line <;>
    simp [remaining, marked, List.getLast?_cons_cons]

theorem dropped_cons (markers : List Text) (line next : Text) (rest : List Text) :
    dropped markers (line :: next :: rest) =
      if Marked markers line then line :: dropped markers (next :: rest)
      else dropped markers (next :: rest) := by
  by_cases marked : Marked markers line <;> simp [dropped, marked]

theorem removeFrom_cons (marker line next : Text) (rest : List Text) :
    removeFrom [marker] 0 (line :: next :: rest) =
      let later := removeFrom [marker] 0 (next :: rest)
      if MarkedBy marker line then (later.1, later.2 + 1) else (line :: later.1, later.2) := by
  rw [removeFrom]
  simp only [startsAt, marks_iff, List.length_singleton, Nat.sub_self]

theorem removeFrom_eq (marker : Text) (lines : List Text) : removeFrom [marker] 0 lines =
    (remaining [marker] lines, (dropped [marker] lines).length) := by
  induction lines with
  | nil => rfl
  | cons line rest ih =>
    cases rest with
    | nil => rfl
    | cons next rest =>
      rw [removeFrom_cons, ih]
      by_cases marked : MarkedBy marker line <;> simp [remaining_cons, dropped_cons, marked]

theorem remaining_ne_nil (markers : List Text) {lines : List Text} (nonempty : lines ≠ []) :
    remaining markers lines ≠ [] := by
  simp [remaining, nonempty]

theorem remaining_nil (lines : List Text) : remaining [] lines = lines := by
  obtain rfl | ⟨before, last, rfl⟩ := List.eq_nil_or_concat lines <;> simp [remaining]

theorem dropped_nil (lines : List Text) : dropped [] lines = [] := by
  simp [dropped]

theorem dropLast_remaining (markers : List Text) (lines : List Text) :
    (remaining markers lines).dropLast =
      lines.dropLast.filter fun line => ¬ Marked markers line := by
  obtain rfl | ⟨before, last, rfl⟩ := List.eq_nil_or_concat lines <;> simp [remaining]

theorem getLast?_remaining (markers : List Text) (lines : List Text) :
    (remaining markers lines).getLast? = lines.getLast? := by
  obtain rfl | ⟨before, last, rfl⟩ := List.eq_nil_or_concat lines <;> simp [remaining]

theorem remaining_remaining (marker : Text) (markers : List Text) (lines : List Text) :
    remaining markers (remaining [marker] lines) = remaining (marker :: markers) lines := by
  rw [remaining, dropLast_remaining, getLast?_remaining, List.filter_filter, remaining]
  simp [and_comm]

theorem length_dropped_cons (marker : Text) (markers : List Text) (lines : List Text) :
    (dropped (marker :: markers) lines).length =
      (dropped [marker] lines).length + (dropped markers (remaining [marker] lines)).length := by
  simp only [dropped, dropLast_remaining]
  induction lines.dropLast with
  | nil => rfl
  | cons line rest ih =>
    by_cases first : MarkedBy marker line <;> by_cases later : Marked markers line <;>
      simp_all <;> omega

theorem removeAll_eq {markers : List Text} (single : ∀ marker ∈ markers, '\n' ∉ marker)
    (lines : List Text) :
    removeAll markers lines = (remaining markers lines, (dropped markers lines).length) := by
  induction markers generalizing lines with
  | nil => simp [removeAll, remaining_nil, dropped_nil]
  | cons marker markers ih =>
    have alone : Text.splitOn '\n' marker = [marker] :=
      Text.splitOn_of_notMem (single marker List.mem_cons_self)
    have later := ih fun other member => single other (List.mem_cons_of_mem _ member)
    rw [removeAll, alone, removeFrom_eq, length_dropped_cons marker markers]
    simp only [later, remaining_remaining]

theorem strip_eq {markers : List Text} (single : ∀ marker ∈ markers, '\n' ∉ marker)
    (source : Text) : strip markers source =
      ⟨Text.joinWith '\n' (remaining markers (Text.splitOn '\n' source)),
        (dropped markers (Text.splitOn '\n' source)).length⟩ := by
  rw [strip, removeAll_eq single]

theorem length_remaining_add_dropped (markers : List Text) (lines : List Text) :
    (remaining markers lines).length + (dropped markers lines).length = lines.length := by
  induction lines with
  | nil => rfl
  | cons line rest ih =>
    cases rest with
    | nil => rfl
    | cons next rest =>
      rw [remaining_cons, dropped_cons]
      split <;> simp only [List.length_cons] at ih ⊢ <;> omega

theorem remaining_append (markers : List Text) (first : List Text) {second : List Text}
    (nonempty : second ≠ []) :
    remaining markers (first ++ second) = unmarked markers first ++ remaining markers second := by
  have last : (first ++ second).getLast? = second.getLast? := by
    rw [List.getLast?_append, Option.or_of_isSome (by simpa using nonempty)]
  rw [remaining, List.dropLast_append_of_ne_nil nonempty, last, List.filter_append,
    List.append_assoc]
  rfl

theorem dropped_append (markers : List Text) (first : List Text) {second : List Text}
    (nonempty : second ≠ []) : dropped markers (first ++ second) =
      first.filter (fun line => Marked markers line) ++ dropped markers second := by
  rw [dropped, List.dropLast_append_of_ne_nil nonempty, List.filter_append]
  rfl

theorem remaining_concat (markers : List Text) (lines : List Text) (last : Text) :
    remaining markers (lines ++ [last]) = unmarked markers lines ++ [last] :=
  remaining_append markers lines (List.cons_ne_nil last [])

theorem exists_dropReturn_append (line : Text) :
    ∃ ending : Text, line = dropReturn line ++ ending ∧ ∀ c ∈ ending, c = '\r' := by
  unfold dropReturn
  split
  · rename_i before reversed
    exact ⟨['\r'], by simpa using congrArg List.reverse reversed, by simp⟩
  · exact ⟨[], by simp, by simp⟩

theorem dropReturn_concat {c : Char} (other : c ≠ '\r') (line : Text) :
    dropReturn (line ++ [c]) = line ++ [c] := by
  unfold dropReturn
  rw [List.reverse_concat]
  split
  · rename_i same
    exact absurd (List.cons.inj same).1 other
  · rfl

theorem not_marked_of_suffix {markers : List Text} {line tail : Text} (behind : tail <:+ line)
    (noBracket : ']' ∉ tail) {c : Char} (member : c ∈ tail) (noReturn : c ≠ '\r') :
    ¬ Marked markers line := by
  rintro ⟨marker, -, before, after, form⟩
  obtain ⟨ending, whole, returns⟩ := exists_dropReturn_append line
  have closing : ']' :: ending <:+ line := by
    refine ⟨before ++ '[' :: marker ++ after, ?_⟩
    rw [whole, form]
    simp
  rcases List.suffix_or_suffix_of_suffix closing behind with within | around
  · exact noBracket (within.subset List.mem_cons_self)
  · rcases List.mem_cons.mp (around.subset member) with rfl | later
    · exact noBracket member
    · exact noReturn (returns c later)

theorem not_marked_of_last {markers : List Text} {line : Text} {c : Char}
    (noBracket : c ≠ ']') (noReturn : c ≠ '\r') : ¬ Marked markers (line ++ [c]) :=
  not_marked_of_suffix (List.suffix_append line [c]) (by simpa using noBracket.symm)
    (List.mem_singleton_self c) noReturn

theorem not_marked_empty (markers : List Text) : ¬ Marked markers [] := by
  rintro ⟨marker, -, before, after, form⟩
  exact List.concat_ne_nil _ _ form.symm

theorem unmarked_append (markers : List Text) (first second : List Text) :
    unmarked markers (first ++ second) = unmarked markers first ++ unmarked markers second :=
  List.filter_append ..

theorem unmarked_cons {markers : List Text} {line : Text} (kept : ¬ Marked markers line)
    (rest : List Text) : unmarked markers (line :: rest) = line :: unmarked markers rest := by
  simp [unmarked, kept]

theorem mem_unmarked {markers : List Text} {lines : List Text} {line : Text} :
    line ∈ unmarked markers lines ↔ line ∈ lines ∧ ¬ Marked markers line := by
  simp [unmarked]

theorem mem_of_mem_remaining {markers : List Text} {lines : List Text} {line : Text}
    (member : line ∈ remaining markers lines) : line ∈ lines := by
  rcases List.mem_append.mp member with kept | last
  · exact List.dropLast_subset _ (List.mem_filter.mp kept).1
  · exact List.mem_of_getLast? (Option.mem_toList.mp last)

theorem remaining_eq_self {markers : List Text} {lines : List Text}
    (kept : ∀ line ∈ lines.dropLast, ¬ Marked markers line) :
    remaining markers lines = lines := by
  obtain rfl | ⟨before, last, rfl⟩ := List.eq_nil_or_concat lines
  · rfl
  · rw [List.concat_eq_append] at kept ⊢
    rw [List.dropLast_concat] at kept
    rw [remaining_concat, unmarked, List.filter_eq_self.mpr fun line member =>
      decide_eq_true (kept line member)]

theorem dropped_eq_nil {markers : List Text} {lines : List Text}
    (kept : ∀ line ∈ lines.dropLast, ¬ Marked markers line) :
    dropped markers lines = [] := by
  simpa [dropped] using kept

end SchemaClasses.Annotation
