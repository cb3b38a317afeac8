import SchemaClasses.Proofs.Text.Pieces

set_option autoImplicit false

namespace SchemaClasses.Text

def withReturns (s : Text) : Text := replaceAll ['\n'] ['\r', '\n'] s

def dropReturns (s : Text) : Text := s.filter (· ≠ '\r')

theorem withReturns_cons (c : Char) (rest : Text) : withReturns (c :: rest) =
    if c = '\n' then '\r' :: '\n' :: withReturns rest else c :: withReturns rest := by
  by_cases same : c = '\n'
  · simp [withReturns, replaceAll, replaceFrom, startsWith, dropStart?, same]
  · simp [withReturns, replaceAll, replaceFrom, startsWith, dropStart?, same, Ne.symm same]

theorem exists_lines_withReturns (s : Text) : ∃ before last, splitOn '\n' s = before ++ [last] ∧
    splitOn '\n' (withReturns s) = before.map (· ++ ['\r']) ++ [last] := by
  induction s with
  | nil => exact ⟨[], [], rfl, rfl⟩
  | cons c rest ih =>
    obtain ⟨before, last, plain, returned⟩ := ih
    rw [withReturns_cons]
    by_cases same : c = '\n'
    · refine ⟨[] :: before, last, ?_, ?_⟩
      · simp [splitOn_cons, same, plain]
      · simp [splitOn_cons, same, returned, consFirst]
    · -- The character joins the first line, which may be the last one too.
      cases before with
      | nil =>
        refine ⟨[], c :: last, ?_, ?_⟩
        · simp [splitOn_cons, same, plain, consFirst]
        · simp [splitOn_cons, same, returned, consFirst]
      | cons first before =>
        refine ⟨(c :: first) :: before, last, ?_, ?_⟩
        · simp [splitOn_cons, same, plain, consFirst]
        · simp [splitOn_cons, same, returned, consFirst]

theorem dropReturns_of_notMem {s : Text} (absent : '\r' ∉ s) : dropReturns s = s := by
  refine List.filter_eq_self.mpr fun c member => ?_
  have other : c ≠ '\r' := fun same => absent (same ▸ member)
  simpa using other

theorem dropReturns_concat (s : Text) : dropReturns (s ++ ['\r']) = dropReturns s := by
  simp [dropReturns]

theorem dropReturns_joinWith (pieces : List Text) :
    dropReturns (joinWith '\n' pieces) = joinWith '\n' (pieces.map dropReturns) := by
  induction pieces with
  | nil => rfl
  | cons piece rest ih =>
    by_cases last : rest = []
    · rw [last]
      rfl
    · have later : rest.map dropReturns ≠ [] := by simpa using last
      rw [List.map_cons, joinWith_cons '\n' piece last, joinWith_cons '\n' _ later, ← ih]
      simp [dropReturns]

end SchemaClasses.Text
