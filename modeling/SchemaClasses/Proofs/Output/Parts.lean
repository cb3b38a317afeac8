import Mathlib.Data.List.Infix
import Mathlib.Logic.Function.Basic
import SchemaClasses.Output.Wrapper
import SchemaClasses.Proofs.Text.Occurrences

set_option autoImplicit false

/-!
Texts cut where their placeholders are. No two placeholders overlap, so one pass from left to right finds
all of them (`occurrences_text`). Parts that are put together again hold these and the ones that come about
by accident (`occurrences_source`).
-/

namespace SchemaClasses

namespace Placeholder

def at? (s : Text) : Option Placeholder := all.find? fun p => Text.startsWith p.text s

theorem text_ne_nil (p : Placeholder) : p.text ≠ [] := by cases p <;> decide

theorem eq_of_starts {p q : Placeholder} {after rest : Text} (inside : after <:+ q.text)
    (nonempty : after ≠ []) (found : p.text <+: after ++ rest) : after = q.text ∧ p = q := by
  have apart : ∀ after ∈ q.text.tails, after ≠ [] → p.text <+: after ∨ after <+: p.text →
      after = q.text ∧ p = q := by
    cases p <;> cases q <;> decide +kernel
  exact apart after ((List.mem_tails _ _).mpr inside) nonempty
    (List.prefix_or_prefix_of_prefix found (List.prefix_append _ _))

theorem passed_within {p q : Placeholder} {s : Text} {c : Char} (split : q.text = c :: s) (rest : Text) :
    ¬ Text.StartsWithin p.text s rest := by
  rintro ⟨after, inside, nonempty, found⟩
  obtain ⟨rfl, -⟩ := eq_of_starts (split ▸ inside.trans (List.suffix_cons c s)) nonempty found
  have longer := inside.length_le
  rw [split, List.length_cons] at longer
  omega

theorem passed_over {p q : Placeholder} (other : p ≠ q) (rest : Text) :
    ¬ Text.StartsWithin p.text q.text rest := by
  rintro ⟨after, inside, nonempty, found⟩
  exact other (eq_of_starts inside nonempty found).2

theorem at?_eq_none_iff {s : Text} : at? s = none ↔ ∀ p : Placeholder, ¬ p.text <+: s := by
  have listed (p : Placeholder) : p ∈ all := by cases p <;> decide
  simp [at?, List.find?_eq_none, listed, ← Text.startsWith_iff]

theorem at?_append (p : Placeholder) (rest : Text) : at? (p.text ++ rest) = some p := by
  have starts : p.text <+: p.text ++ rest := List.prefix_append _ _
  cases found : at? (p.text ++ rest) with
  | none => exact absurd starts (at?_eq_none_iff.mp found p)
  | some q =>
    have other := List.find?_some found
    rw [(eq_of_starts List.suffix_rfl p.text_ne_nil (Text.startsWith_iff.mp other)).2]

end Placeholder

theorem Text.placeholder_induction {motive : Text → Prop} (nil : motive [])
    (hole : ∀ (p : Placeholder) (rest : Text), motive rest → motive (p.text ++ rest))
    (sign : ∀ (c : Char) (rest : Text), (∀ p : Placeholder, ¬ p.text <+: c :: rest) → motive rest →
      motive (c :: rest)) (s : Text) : motive s := by
  match s with
  | [] => exact nil
  | c :: rest =>
    by_cases none : ∀ p : Placeholder, ¬ p.text <+: c :: rest
    · exact sign c rest none (placeholder_induction nil hole sign rest)
    · push Not at none
      obtain ⟨p, later, found⟩ := none
      have shorter : later.length < (c :: rest).length := by
        have positive := List.length_pos_iff.mpr p.text_ne_nil
        rw [← found, List.length_append]
        omega
      rw [← found]
      exact hole p later (placeholder_induction nil hole sign later)
termination_by s.length
decreasing_by
  · exact Nat.lt_succ_self _
  · exact shorter

inductive Part where
  | sign (c : Char)
  | hole (placeholder : Placeholder)
deriving DecidableEq

namespace Part

variable {p q : Placeholder} {c : Char} {rest : List Part}

def cutFrom : Nat → Text → List Part
  | _, [] => []
  | skip + 1, _ :: rest => cutFrom skip rest
  | 0, c :: rest =>
    match Placeholder.at? (c :: rest) with
    | some p => hole p :: cutFrom (p.text.length - 1) rest
    | none => sign c :: cutFrom 0 rest

def cut (s : Text) : List Part := cutFrom 0 s

def text (values : Placeholder → Text) : Part → Text
  | sign c => [c]
  | hole p => values p

def write (values : Placeholder → Text) (parts : List Part) : Text := parts.flatMap (text values)

def source (parts : List Part) : Text := write Placeholder.text parts

@[simp] theorem write_nil (values : Placeholder → Text) : write values [] = [] := rfl

@[simp] theorem write_cons (values : Placeholder → Text) (part : Part) (parts : List Part) :
    write values (part :: parts) = text values part ++ write values parts := rfl

@[simp] theorem write_append (values : Placeholder → Text) (first second : List Part) :
    write values (first ++ second) = write values first ++ write values second := List.flatMap_append

@[simp] theorem write_signs (values : Placeholder → Text) (s : Text) :
    write values (s.map sign) = s := by
  induction s with
  | nil => rfl
  | cons c s ih => simp [text, ih]

theorem source_cons (part : Part) (parts : List Part) :
    source (part :: parts) = text Placeholder.text part ++ source parts := rfl

theorem source_append (first second : List Part) :
    source (first ++ second) = source first ++ source second := write_append _ _ _

theorem cutFrom_eq (skip : Nat) (s : Text) : cutFrom skip s = cut (s.drop skip) := by
  induction skip generalizing s with
  | zero => rfl
  | succ skip ih =>
    cases s with
    | nil => rfl
    | cons c rest => exact ih rest

theorem cut_append (p : Placeholder) (rest : Text) : cut (p.text ++ rest) = hole p :: cut rest := by
  obtain ⟨c, tail, split⟩ := List.exists_cons_of_ne_nil p.text_ne_nil
  have found := Placeholder.at?_append p rest
  have shorter : p.text.length - 1 = tail.length := by simp [split]
  rw [split, List.cons_append] at found ⊢
  rw [cut, cutFrom, found]
  simp only [cutFrom_eq, shorter, List.drop_left]

theorem cut_cons {c : Char} {rest : Text} (none : ∀ p : Placeholder, ¬ p.text <+: c :: rest) :
    cut (c :: rest) = sign c :: cut rest := by
  simp [cut, cutFrom, Placeholder.at?_eq_none_iff.mpr none]

theorem source_cut (s : Text) : source (cut s) = s := by
  induction s using Text.placeholder_induction with
  | nil => rfl
  | hole p rest ih =>
    rw [cut_append, source_cons, ih]
    rfl
  | sign c rest none ih =>
    rw [cut_cons none, source_cons, ih]
    rfl

/-- The number of signs at which the placeholder starts although none was meant there. -/
def accidents (p : Placeholder) : List Part → Nat
  | [] => 0
  | sign c :: rest => (if Text.startsWith p.text (c :: source rest) then 1 else 0) + accidents p rest
  | hole _ :: rest => accidents p rest

theorem accidents_cut (p : Placeholder) (s : Text) : accidents p (cut s) = 0 := by
  induction s using Text.placeholder_induction with
  | nil => rfl
  | hole q rest ih => rw [cut_append, accidents, ih]
  | sign c rest none ih =>
    have absent : ¬ Text.startsWith p.text (c :: rest) = true := fun found =>
      none p (Text.startsWith_iff.mp found)
    rw [cut_cons none, accidents, source_cut, if_neg absent, ih]

theorem occurrences_text_append (p q : Placeholder) (rest : Text) :
    Text.occurrences p.text (q.text ++ rest) =
      (if p = q then 1 else 0) + Text.occurrences p.text rest := by
  by_cases same : p = q
  · subst same
    obtain ⟨c, tail, split⟩ := List.exists_cons_of_ne_nil p.text_ne_nil
    have found : Text.startsWith p.text (p.text ++ rest) = true :=
      Text.startsWith_iff.mpr (List.prefix_append _ _)
    have later := Text.occurrences_append (Placeholder.passed_within (p := p) split rest)
    rw [split, List.cons_append] at found ⊢
    rw [split] at later
    rw [Text.occurrences, if_pos found, later]
    simp
  · rw [Text.occurrences_append (Placeholder.passed_over same rest), if_neg same, Nat.zero_add]

theorem occurrences_source (p : Placeholder) (parts : List Part) :
    Text.occurrences p.text (source parts) = parts.count (hole p) + accidents p parts := by
  induction parts with
  | nil => rfl
  | cons part rest ih =>
    cases part with
    | sign c =>
      rw [source_cons, accidents, List.count_cons_of_ne (by simp)]
      simp only [text, List.singleton_append, Text.occurrences, ih]
      omega
    | hole q =>
      rw [source_cons, accidents, text, occurrences_text_append, ih, List.count_cons]
      by_cases same : p = q
      · simp [same]
        omega
      · simp [same, Ne.symm same]

theorem occurrences_text (p : Placeholder) (s : Text) :
    Text.occurrences p.text s = (cut s).count (hole p) := by
  have counted := occurrences_source p (cut s)
  rwa [source_cut, accidents_cut, Nat.add_zero] at counted

end Part

end SchemaClasses
