import SchemaClasses.Proofs.Source.ClassOutline

set_option autoImplicit false

namespace SchemaClasses

namespace SourceLine

theorem numbered_append (first : Nat) (texts more : List Text) :
    numbered first (texts ++ more) = numbered first texts ++ numbered (first + texts.length) more := by
  induction texts generalizing first with
  | nil => rfl
  | cons text texts ih =>
    rw [List.cons_append, numbered, ih, numbered, List.cons_append, List.length_cons,
      Nat.add_right_comm, Nat.add_assoc]

theorem text_mem_of_mem_numbered {first : Nat} {texts : List Text} {line : SourceLine}
    (member : line ∈ numbered first texts) : line.text ∈ texts := by
  have image := List.mem_map_of_mem (f := SourceLine.text) member
  rwa [map_text_numbered] at image

end SourceLine

namespace Scan

open SourceLine

def Quiet (text : Text) : Prop := LineKind.ofLine text = .other

def Flat (text : Text) : Prop :=
  Quiet text ∨ ∃ name shape, LineKind.ofLine text = .member name shape

def declaredNames (texts : List Text) : List Text :=
  texts.filterMap fun text => memberName? ⟨0, text⟩

theorem declaredNames_append (texts more : List Text) :
    declaredNames (texts ++ more) = declaredNames texts ++ declaredNames more :=
  List.filterMap_append

theorem declaredNames_of_quiet {texts : List Text} (quiet : ∀ text ∈ texts, Quiet text) :
    declaredNames texts = [] := by
  refine List.filterMap_eq_nil_iff.mpr fun text member => ?_
  have kind : LineKind.ofLine text = .other := quiet text member
  simp [memberName?, SourceLine.kind, kind]

theorem memberNames_numbered (first : Nat) (texts : List Text) :
    memberNames (numbered first texts) = declaredNames texts := by
  induction texts generalizing first with
  | nil => rfl
  | cons text texts ih =>
    have later := ih (first + 1)
    rw [memberNames, declaredNames] at later ⊢
    rw [numbered, List.filterMap_cons, List.filterMap_cons, later]
    rfl

theorem resume_headless {texts : List Text}
    (headless : ∀ text ∈ texts, ∀ name, LineKind.ofLine text ≠ .classHeader name) (first : Nat)
    (rest : List Text) : resume .outside (numbered first (texts ++ rest)) =
      resume .outside (numbered (first + texts.length) rest) := by
  induction texts generalizing first with
  | nil => rfl
  | cons text texts ih =>
    have other : ∀ name, SourceLine.kind ⟨first, text⟩ ≠ .classHeader name :=
      headless text List.mem_cons_self
    rw [List.cons_append, numbered, resume_skip other,
      ih (fun text member => headless text (List.mem_cons_of_mem _ member)), List.length_cons,
      Nat.add_right_comm, Nat.add_assoc]

theorem Quiet.headless {text : Text} (quiet : Quiet text) (name : Text) :
    LineKind.ofLine text ≠ .classHeader name := by
  have kind : LineKind.ofLine text = .other := quiet
  simp [kind]

theorem step_flat (block : ClassBlock) {depth : Int} (deep : depth ≠ 0) {line : SourceLine}
    (flat : Flat line.text) : step (.inside block depth) line =
      (.inside (addMembers block [line]) depth, ⟨[], []⟩) := by
  have weightless : weight [line] = 0 := by
    rcases flat with quiet | ⟨name, shape, member⟩
    · have kind : LineKind.ofLine line.text = .other := quiet
      simp [weight, opened, closed, SourceLine.kind, kind]
    · simp [weight, opened, closed, SourceLine.kind, member]
  have silent : findings block depth line = [] := by
    rcases flat with quiet | ⟨name, shape, member⟩
    · have kind : LineKind.ofLine line.text = .other := quiet
      simp [findings, bodyLine, kind]
    · simp [findings, bodyLine, member]
  rw [step_inside, weightless, Int.add_zero, if_neg deep, silent]

theorem resume_flat (block : ClassBlock) {depth : Int} (deep : depth ≠ 0) {run : List SourceLine}
    (flat : ∀ line ∈ run, Flat line.text) (rest : List SourceLine) :
    resume (.inside block depth) (run ++ rest) =
      resume (.inside (addMembers block run) depth) rest := by
  induction run generalizing block with
  | nil => rw [addMembers_nil, List.nil_append]
  | cons line run ih =>
    have members := addMembers_append block [line] run
    rw [List.singleton_append] at members
    rw [List.cons_append, resume, step_flat block deep (flat line List.mem_cons_self),
      ih _ fun other member => flat other (List.mem_cons_of_mem _ member), members]
    simp [append]

theorem resume_class {header opening closing name : Text} {body : List Text}
    (headed : LineKind.ofLine header = .classHeader name)
    (opens : LineKind.ofLine opening = .openBrace)
    (closes : LineKind.ofLine closing = .closeBrace) (flat : ∀ text ∈ body, Flat text)
    (first : Nat) (rest : List Text) :
    resume .outside (numbered first (header :: opening :: (body ++ closing :: rest))) =
      append ⟨[⟨name, declaredNames body, first⟩], []⟩
        (resume .outside (numbered (first + 2 + body.length + 1) rest)) := by
  -- The opening brace lifts the depth to one, where flat lines keep it, and the closing one ends it.
  have inner : ∀ line ∈ numbered (first + 1 + 1) body, Flat line.text := fun line member =>
    flat line.text (text_mem_of_mem_numbered member)
  have isHeader : SourceLine.kind ⟨first, header⟩ = .classHeader name := headed
  have up : step (.inside ⟨name, [], first⟩ 0) ⟨first + 1, opening⟩ =
      (.inside ⟨name, [], first⟩ 1, ⟨[], []⟩) := by
    simp [step, bodyLine, opens]
  have down (block : ClassBlock) (number : Nat) : step (.inside block 1) ⟨number, closing⟩ =
      (.outside, ⟨[block], []⟩) := by
    simp [step, bodyLine, closes]
  rw [numbered, resume_header isHeader, numbered, resume, up, numbered_append,
    resume_flat _ (by decide) inner, numbered, resume, down, addMembers, memberNames_numbered]
  simp [append]

end Scan

end SchemaClasses
