import SchemaClasses.Text.Characters

set_option autoImplicit false

namespace SchemaClasses.Text

def isPlain (c : Char) : Bool := c.isAlphanum || c == '_'

def Plain (s : Text) : Prop := ∀ c ∈ s, isPlain c = true

def isTypeSign (c : Char) : Bool := isPlain c || c == '.' || c == '<' || c == '>' || c == '?'

theorem forall_ascii {P : Char → Prop} (each : ∀ n < 128, P (Char.ofNat n)) {c : Char}
    (ascii : c.toNat < 128) : P c := by
  have holds := each c.toNat ascii
  rwa [Char.ofNat_toNat] at holds

theorem ascii_of_isAlphanum {c : Char} (alphanum : c.isAlphanum = true) : c.toNat < 128 := by
  change (decide ('A'.val ≤ c.val ∧ c.val ≤ 'Z'.val) ||
    (decide ('a'.val ≤ c.val) && decide (c.val ≤ 'z'.val)) ||
      (decide ('0'.val ≤ c.val) && decide (c.val ≤ '9'.val))) = true at alphanum
  simp only [Bool.or_eq_true, Bool.and_eq_true, decide_eq_true_eq, UInt32.le_iff_toNat_le]
    at alphanum
  change ((65 ≤ c.toNat ∧ c.toNat ≤ 90) ∨ (97 ≤ c.toNat ∧ c.toNat ≤ 122)) ∨
    (48 ≤ c.toNat ∧ c.toNat ≤ 57) at alphanum
  omega

theorem ascii_of_isTypeSign {c : Char} (sign : isTypeSign c = true) : c.toNat < 128 := by
  simp only [isTypeSign, isPlain, Bool.or_eq_true, beq_iff_eq] at sign
  rcases sign with ((((alphanum | rfl) | rfl) | rfl) | rfl) | rfl
  · exact ascii_of_isAlphanum alphanum
  all_goals decide

theorem isTypeSign_of_isPlain {c : Char} (plain : isPlain c = true) : isTypeSign c = true := by
  simp [isTypeSign, plain]

set_option maxRecDepth 4000 in
theorem visible_of_isTypeSign {c : Char} (sign : isTypeSign c = true) : isBlank c = false :=
  forall_ascii (P := fun c => isTypeSign c = true → isBlank c = false) (by decide)
    (ascii_of_isTypeSign sign) sign

set_option maxRecDepth 4000 in
theorem foldCase_of_isTypeSign {c : Char} (sign : isTypeSign c = true) : foldCase c = c.toLower :=
  forall_ascii (P := fun c => isTypeSign c = true → foldCase c = c.toLower)
    (by decide) (ascii_of_isTypeSign sign) sign

set_option maxRecDepth 4000 in
theorem isWordPart_of_isPlain {c : Char} (plain : isPlain c = true) : isWordPart c = true :=
  forall_ascii (P := fun c => isPlain c = true → isWordPart c = true) (by decide)
    (ascii_of_isTypeSign (isTypeSign_of_isPlain plain)) plain

set_option maxRecDepth 4000 in
theorem isTypePart_of_isTypeSign {c : Char} (sign : isTypeSign c = true) (noMark : c ≠ '?') :
    isTypePart c = true :=
  forall_ascii (P := fun c => isTypeSign c = true → c ≠ '?' → isTypePart c = true) (by decide)
    (ascii_of_isTypeSign sign) sign noMark

theorem visible_of_isPlain {c : Char} (plain : isPlain c = true) : isBlank c = false :=
  visible_of_isTypeSign (isTypeSign_of_isPlain plain)

theorem newline_notMem_of_visible {s : Text} (visible : ∀ c ∈ s, isBlank c = false) : '\n' ∉ s := by
  intro member
  exact absurd (visible '\n' member) (by decide)

theorem Plain.newline_notMem {s : Text} (plain : Plain s) : '\n' ∉ s :=
  newline_notMem_of_visible fun c member => visible_of_isPlain (plain c member)

theorem Plain.append {first second : Text} (one : Plain first) (two : Plain second) :
    Plain (first ++ second) := by
  intro c member
  rcases List.mem_append.mp member with here | there
  · exact one c here
  · exact two c there

theorem isDigit_of_mem_ofNat {n : Nat} {c : Char} (member : c ∈ ofNat n) : c.isDigit = true :=
  Nat.isDigit_of_mem_toDigits (by decide : 0 < 10) (by decide) member

theorem plain_ofNat (n : Nat) : Plain (ofNat n) := by
  intro c member
  simp [isPlain, Char.isAlphanum, isDigit_of_mem_ofNat member]

end SchemaClasses.Text
