import SchemaClasses.Proofs.Naming

set_option autoImplicit false

namespace SchemaClasses.Naming

open Text

/-- The letters and digits of a text in their order, those that start a word in upper case. -/
def compound (starts : Bool) : Text → Text
  | [] => []
  | c :: rest =>
    if c.isAlphanum then (if starts then c.toUpper else c) :: compound false rest
    else compound true rest

def LeadsWithDigit (s : Text) : Prop :=
  ∃ c, s.find? Char.isAlphanum = some c ∧ c.isDigit = true

instance (s : Text) : Decidable (LeadsWithDigit s) :=
  decidable_of_iff ((s.find? Char.isAlphanum).any Char.isDigit = true)
    (Option.any_eq_true _ _)

def identifier (s : Text) : Text :=
  if LeadsWithDigit s then '_' :: compound true s else compound true s

theorem compound_eq (s : Text) :
    ∃ word later, splitWhere (fun c => !c.isAlphanum) s = word :: later ∧
      compound true s = (word :: later).flatMap upperFirst ∧
      compound false s = word ++ later.flatMap upperFirst := by
  induction s with
  | nil => exact ⟨[], [], rfl, rfl, rfl⟩
  | cons c rest ih =>
    obtain ⟨word, later, cut, starts, inside⟩ := ih
    by_cases alphanum : c.isAlphanum = true
    · refine ⟨c :: word, later, ?_, ?_, ?_⟩
      · simp [splitWhere, alphanum, cut, consFirst]
      · simp [compound, alphanum, inside, upperFirst, toUpper_apply (ascii_of_isAlphanum alphanum)]
      · simp [compound, alphanum, inside]
    · refine ⟨[], word :: later, ?_, ?_, ?_⟩
      · simp [splitWhere, alphanum, cut]
      · simp [compound, alphanum, starts, upperFirst]
      · simp [compound, alphanum, starts]

theorem pascalCase_eq_guardDigit (s : Text) : pascalCase s = guardDigit (compound true s) := by
  obtain ⟨word, later, cut, starts, -⟩ := compound_eq s
  rw [pascalCase, cut, starts]

theorem isAlphanum_of_mem_compound {s : Text} {c : Char} (member : c ∈ compound true s) :
    c.isAlphanum = true := by
  obtain ⟨word, later, cut, starts, -⟩ := compound_eq s
  rw [starts, ← cut] at member
  exact isAlphanum_of_mem_words member

theorem head?_compound (s : Text) :
    (compound true s).head? = (s.find? Char.isAlphanum).map Char.toUpper := by
  induction s with
  | nil => rfl
  | cons c rest ih => by_cases alphanum : c.isAlphanum = true <;> simp [compound, alphanum, ih]

set_option maxRecDepth 4000 in
theorem starts_of_compound {s rest : Text} {c : Char} (starts : compound true s = c :: rest) :
    (LeadsWithDigit s ↔ c.isDigit = true) ∧ (¬ LeadsWithDigit s → c.isUpper = true) := by
  have head := head?_compound s
  rw [starts, List.head?_cons, eq_comm, Option.map_eq_some_iff] at head
  obtain ⟨first, found, rfl⟩ := head
  have alphanum : first.isAlphanum = true := List.find?_some found
  have same : LeadsWithDigit s ↔ first.isDigit = true := by simp [LeadsWithDigit, found]
  have kept : (first.isDigit = true ↔ first.toUpper.isDigit = true) ∧
      (¬ first.isDigit = true → first.toUpper.isUpper = true) :=
    forall_ascii (P := fun c => c.isAlphanum = true →
        (c.isDigit = true ↔ c.toUpper.isDigit = true) ∧
          (¬ c.isDigit = true → c.toUpper.isUpper = true))
      (by decide) (ascii_of_isAlphanum alphanum) alphanum
  exact ⟨same.trans kept.1, fun noDigit => kept.2 (noDigit ∘ same.mpr)⟩

theorem pascalCase_eq (s : Text) : pascalCase s = identifier s := by
  rw [pascalCase_eq_guardDigit, identifier]
  cases starts : compound true s with
  | nil =>
    have noDigit : ¬ LeadsWithDigit s := by
      rintro ⟨c, found, -⟩
      have head := head?_compound s
      rw [starts, found] at head
      contradiction
    rw [if_neg noDigit]
    rfl
  | cons c rest => simp only [guardDigit, starts_of_compound starts]

example : identifier "3d my_model.v2".toList = "_3dMyModelV2".toList := by decide

theorem pascalCase_eq_iff {s t : Text} :
    pascalCase s = pascalCase t ↔ compound true s = compound true t := by
  have noUnderscore (u : Text) : '_' ∉ compound true u := fun member =>
    absurd (isAlphanum_of_mem_compound member) (by decide)
  constructor
  · intro same
    -- Only with the underscore of a digit there is one, so both texts lead with a digit or none.
    rw [pascalCase_eq, pascalCase_eq, identifier, identifier] at same
    split at same <;> split at same
    · exact (List.cons.inj same).2
    · exact absurd (same ▸ List.mem_cons_self) (noUnderscore t)
    · exact absurd (same ▸ List.mem_cons_self) (noUnderscore s)
    · exact same
  · intro same
    rw [pascalCase_eq_guardDigit, pascalCase_eq_guardDigit, same]

theorem starts_of_pascalCase {s rest : Text} {c : Char} (starts : pascalCase s = c :: rest) :
    (c = '_' ∧ LeadsWithDigit s) ∨ (c.isUpper = true ∧ ¬ LeadsWithDigit s) := by
  rw [pascalCase_eq, identifier] at starts
  split at starts
  · rename_i digit
    exact .inl ⟨(List.cons.inj starts).1.symm, digit⟩
  · rename_i noDigit
    exact .inr ⟨(starts_of_compound starts).2 noDigit, noDigit⟩

theorem ascii_of_starts {s rest : Text} {c : Char} (starts : pascalCase s = c :: rest) :
    c.toNat < 128 :=
  ascii_of_isTypeSign (isTypeSign_of_isPlain (plain_pascalCase s c (by simp [starts])))

theorem isAlphanum_of_isUpper {c : Char} (upper : c.isUpper = true) : c.isAlphanum = true := by
  change ((c.isUpper || c.isLower) || c.isDigit) = true
  rw [upper]
  rfl

set_option maxRecDepth 4000 in
theorem case_of_isUpper {c : Char} (upper : c.isUpper = true) :
    c.toUpper = c ∧ c.toLower ≠ c ∧ (c.toLower = 'v' → c = 'V') :=
  forall_ascii (P := fun c => c.isUpper = true →
      c.toUpper = c ∧ c.toLower ≠ c ∧ (c.toLower = 'v' → c = 'V'))
    (by decide) (ascii_of_isAlphanum (isAlphanum_of_isUpper upper)) upper

theorem upperFirst_pascalCase (s : Text) : upperFirst (pascalCase s) = pascalCase s := by
  cases starts : pascalCase s with
  | nil => rfl
  | cons c rest =>
    have kept : c.toUpper = c := by
      rcases starts_of_pascalCase starts with ⟨rfl, -⟩ | ⟨upper, -⟩
      · decide
      · exact (case_of_isUpper upper).1
    rw [upperFirst, toUpper_apply (ascii_of_starts starts), kept, List.singleton_append]

theorem lowerFirst_of_starts {s rest : Text} {c : Char} (starts : pascalCase s = c :: rest) :
    lowerFirst (pascalCase s) = c.toLower :: rest := by
  rw [starts, lowerFirst, toLower_apply (ascii_of_starts starts), List.singleton_append]

theorem lowerFirst_pascalCase_eq_iff {s : Text} (nonempty : pascalCase s ≠ []) :
    lowerFirst (pascalCase s) = pascalCase s ↔ LeadsWithDigit s := by
  obtain ⟨c, rest, starts⟩ := List.exists_cons_of_ne_nil nonempty
  rw [lowerFirst_of_starts starts, starts]
  rcases starts_of_pascalCase starts with ⟨rfl, digit⟩ | ⟨upper, noDigit⟩
  · exact iff_of_true rfl digit
  · exact iff_of_false (fun same => (case_of_isUpper upper).2.1 (List.cons.inj same).1) noDigit

theorem lowerFirst_pascalCase_eq_value_iff (s : Text) :
    lowerFirst (pascalCase s) = "value".toList ↔ pascalCase s = "Value".toList := by
  cases starts : pascalCase s with
  | nil => exact iff_of_false (by decide) (by decide)
  | cons c rest =>
    have lower : c.toLower = 'v' ↔ c = 'V' := by
      rcases starts_of_pascalCase starts with ⟨rfl, -⟩ | ⟨upper, -⟩
      · decide
      · exact ⟨(case_of_isUpper upper).2.2, fun same => same ▸ rfl⟩
    rw [← starts, lowerFirst_of_starts starts, starts]
    exact List.cons_eq_cons.trans ((and_congr_left' lower).trans List.cons_eq_cons.symm)

end SchemaClasses.Naming
