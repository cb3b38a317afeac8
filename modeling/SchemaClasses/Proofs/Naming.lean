import SchemaClasses.Naming
import SchemaClasses.Proofs.Text.Pieces
import SchemaClasses.Proofs.Text.Plain

set_option autoImplicit false

namespace SchemaClasses

namespace Text.CaseMap

def avoids (map : CaseMap) (c : Char) : Bool :=
  map.ranges.all (fun range =>
      (c.toNat : Int) < range.first + range.distance || range.last + range.distance < c.toNat)
    && map.expansions.all fun entry => entry.2.all fun n => Char.ofNat n ≠ c

theorem toNat_eq_of_ofNat_eq {n : Nat} {c : Char} (same : Char.ofNat n = c)
    (nonzero : c.toNat ≠ 0) : n = c.toNat := by
  by_cases valid : n.isValidChar
  · have spelled : Char.ofNat n = Char.ofNatAux n valid := dif_pos valid
    exact congrArg Char.toNat (spelled.symm.trans same)
  · have zero : (Char.ofNat n).toNat = 0 := congrArg Char.toNat (dif_neg valid)
    exact absurd (same ▸ zero) nonzero

theorem notMem_apply {map : CaseMap} {d : Char} (avoided : map.avoids d = true)
    (nonzero : d.toNat ≠ 0) {c : Char} (other : c ≠ d) : d ∉ map.apply c := by
  simp only [avoids, Bool.and_eq_true, List.all_eq_true, decide_eq_true_eq, Bool.or_eq_true]
    at avoided
  intro member
  unfold apply at member
  split at member
  · rename_i expansion found
    obtain ⟨n, inside, same⟩ := List.mem_map.mp member
    obtain ⟨before, after, split, -⟩ := List.lookup_eq_some_iff.mp found
    have listed : (c.toNat, expansion) ∈ map.expansions := by simp [split]
    exact avoided.2 _ listed n inside same
  · split at member
    · rename_i range found
      have covered := List.find?_some found
      have beyond := avoided.1 range (List.mem_of_find?_eq_some found)
      have value := toNat_eq_of_ofNat_eq (List.mem_singleton.mp member).symm nonzero
      simp only [CaseRange.covers, Bool.and_eq_true, decide_eq_true_eq] at covered
      omega
    · exact other (List.mem_singleton.mp member).symm

theorem apply_of_ascii {map : CaseMap} (letters : CaseRange) {others : List CaseRange}
    (ranges : map.ranges = letters :: others) (beyond : ∀ range ∈ others, 128 ≤ range.first)
    (single : ∀ entry ∈ map.expansions, 128 ≤ entry.1) {c : Char} (ascii : c.toNat < 128) :
    map.apply c = if letters.covers c.toNat then [Char.ofNat (c.toNat + letters.distance).toNat]
      else [c] := by
  have noExpansion : map.expansions.lookup c.toNat = none := by
    refine List.lookup_eq_none_iff.mpr fun entry member => ?_
    have high := single entry member
    simp only [bne_iff_ne]
    omega
  have noOther : others.find? (fun range => range.covers c.toNat) = none := by
    refine List.find?_eq_none.mpr fun range member covered => ?_
    have high := beyond range member
    simp only [CaseRange.covers, Bool.and_eq_true, decide_eq_true_eq] at covered
    omega
  rw [apply, noExpansion, ranges, List.find?_cons, noOther]
  cases letters.covers c.toNat <;> rfl

end Text.CaseMap

namespace Text

set_option maxRecDepth 4000 in
theorem toUpper_apply {c : Char} (ascii : c.toNat < 128) : toUpper.apply c = [c.toUpper] := by
  rw [CaseMap.apply_of_ascii ⟨0x61, 0x7A, 1, -32⟩ rfl (by decide) (by decide) ascii]
  exact forall_ascii (P := fun c => (if CaseRange.covers ⟨0x61, 0x7A, 1, -32⟩ c.toNat then
    [Char.ofNat (c.toNat + (-32 : Int)).toNat] else [c]) = [c.toUpper]) (by decide) ascii

set_option maxRecDepth 4000 in
theorem toLower_apply {c : Char} (ascii : c.toNat < 128) : toLower.apply c = [c.toLower] := by
  rw [CaseMap.apply_of_ascii ⟨0x41, 0x5A, 1, 32⟩ rfl (by decide) (by decide) ascii]
  exact forall_ascii (P := fun c => (if CaseRange.covers ⟨0x41, 0x5A, 1, 32⟩ c.toNat then
    [Char.ofNat (c.toNat + (32 : Int)).toNat] else [c]) = [c.toLower]) (by decide) ascii

end Text

namespace Naming

/-- No case conversion writes this character for another one. -/
def isForeign (c : Char) : Bool :=
  Text.toUpper.avoids c && Text.toLower.avoids c && c.toNat != 0

theorem notMem_upperFirst {d : Char} (foreign : isForeign d = true) {s : Text} (absent : d ∉ s) :
    d ∉ upperFirst s := by
  simp only [isForeign, Bool.and_eq_true, bne_iff_ne] at foreign
  cases s with
  | nil => exact absent
  | cons c rest =>
    have first := Text.CaseMap.notMem_apply foreign.1.1 foreign.2
      (c := c) fun same => absent (same ▸ List.mem_cons_self)
    simp_all [upperFirst]

theorem notMem_lowerFirst {d : Char} (foreign : isForeign d = true) {s : Text} (absent : d ∉ s) :
    d ∉ lowerFirst s := by
  simp only [isForeign, Bool.and_eq_true, bne_iff_ne] at foreign
  cases s with
  | nil => exact absent
  | cons c rest =>
    have first := Text.CaseMap.notMem_apply foreign.1.2 foreign.2
      (c := c) fun same => absent (same ▸ List.mem_cons_self)
    simp_all [lowerFirst]

set_option maxRecDepth 4000 in
theorem isForeign_newline : isForeign '\n' = true := by decide

set_option maxRecDepth 4000 in
theorem isForeign_return : isForeign '\r' = true := by decide

set_option maxRecDepth 4000 in
theorem isForeign_space : isForeign ' ' = true := by decide

set_option maxRecDepth 4000 in
theorem isForeign_bracket : isForeign ']' = true := by decide

set_option maxRecDepth 4000 in
theorem isAlphanum_toUpper {c : Char} (alphanum : c.isAlphanum = true) :
    c.toUpper.isAlphanum = true :=
  Text.forall_ascii (P := fun c => c.isAlphanum = true → c.toUpper.isAlphanum = true)
    (by decide) (Text.ascii_of_isAlphanum alphanum) alphanum

theorem isAlphanum_of_mem_upperFirst {s : Text} (alphanum : ∀ c ∈ s, c.isAlphanum = true) :
    ∀ d ∈ upperFirst s, d.isAlphanum = true := by
  cases s with
  | nil => exact alphanum
  | cons c rest =>
    intro d member
    have letter := alphanum c List.mem_cons_self
    rw [upperFirst, Text.toUpper_apply (Text.ascii_of_isAlphanum letter)] at member
    rcases List.mem_cons.mp member with rfl | later
    · exact isAlphanum_toUpper letter
    · exact alphanum d (List.mem_cons_of_mem _ later)

theorem plain_guardDigit {s : Text} (alphanum : ∀ c ∈ s, c.isAlphanum = true) :
    Text.Plain (guardDigit s) := by
  have plain : Text.Plain s := fun c member => by simp [Text.isPlain, alphanum c member]
  cases s with
  | nil => exact plain
  | cons c rest =>
    rw [guardDigit]
    split
    · exact List.forall_mem_cons.mpr ⟨rfl, plain⟩
    · exact plain

set_option maxRecDepth 4000 in
theorem isWordStart_guardDigit {s rest : Text} {c : Char}
    (alphanum : ∀ c ∈ s, c.isAlphanum = true) (starts : guardDigit s = c :: rest) :
    Text.isWordStart c = true := by
  cases s with
  | nil => cases starts
  | cons first others =>
    rw [guardDigit] at starts
    split at starts
    · obtain ⟨rfl, -⟩ := List.cons.inj starts
      decide
    · rename_i noDigit
      obtain ⟨rfl, -⟩ := List.cons.inj starts
      have letter := alphanum first List.mem_cons_self
      exact Text.forall_ascii
        (P := fun c => ¬ c.isDigit = true → c.isAlphanum = true → Text.isWordStart c = true)
        (by decide) (Text.ascii_of_isAlphanum letter) noDigit letter

theorem isAlphanum_of_mem_words {s : Text} {c : Char}
    (member : c ∈ (Text.splitWhere (fun c => !c.isAlphanum) s).flatMap upperFirst) :
    c.isAlphanum = true := by
  obtain ⟨piece, listed, inside⟩ := List.mem_flatMap.mp member
  refine isAlphanum_of_mem_upperFirst (fun d within => ?_) c inside
  simpa using Text.separates_of_mem_splitWhere listed within

theorem plain_pascalCase (s : Text) : Text.Plain (pascalCase s) :=
  plain_guardDigit fun _ member => isAlphanum_of_mem_words member

theorem isWordStart_pascalCase (s : Text) :
    ∀ c ∈ (pascalCase s).head?, Text.isWordStart c = true := by
  intro c first
  obtain ⟨rest, starts⟩ := List.head?_eq_some_iff.mp first
  exact isWordStart_guardDigit (fun _ member => isAlphanum_of_mem_words member) starts

end Naming

end SchemaClasses
