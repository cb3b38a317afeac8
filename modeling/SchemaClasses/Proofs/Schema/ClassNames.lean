import Mathlib.Data.List.Nodup
import Mathlib.Data.List.Perm.Subperm
import Mathlib.Logic.Relation
import SchemaClasses.Schema.ClassNames

set_option autoImplicit false

namespace SchemaClasses.Schema.ClassNames

def taken (names : ClassNames) : List Text := names.reserved.map Prod.fst

def positions (names : ClassNames) : List (List Nat) := names.reserved.map Prod.snd

structure Distinct (names : ClassNames) : Prop where
  namesApart : names.taken.Nodup
  nodesApart : names.positions.Nodup

theorem distinct_empty : empty.Distinct := ⟨List.nodup_nil, List.nodup_nil⟩

def Extends (names later : ClassNames) : Prop :=
  ∀ node name, names.nameOf? node = some name → later.nameOf? node = some name

theorem isTaken_iff {names : ClassNames} {name : Text} :
    names.isTaken name = true ↔ name ∈ names.taken := by
  simp [isTaken, taken]

theorem ofNat_injective {first second : Nat} (same : Text.ofNat first = Text.ofNat second) :
    first = second := by
  have back := congrArg (Nat.ofDigitChars 10 · 0) same
  simpa [Text.ofNat, Nat.ofDigitChars_ten_toDigits] using back

theorem numbered_ne (base : Text) (n : Nat) : numbered base n ≠ base := fun same =>
  Nat.toDigits_ne_nil (List.append_right_eq_self.mp same)

def candidate (base : Text) : Nat → Text
  | 0 => base
  | n + 1 => numbered base (n + 2)

theorem candidate_injective (base : Text) : Function.Injective (candidate base) := by
  intro first second same
  cases first with
  | zero =>
    cases second with
    | zero => rfl
    | succ second => exact absurd same.symm (numbered_ne base _)
  | succ first =>
    cases second with
    | zero => exact absurd same (numbered_ne base _)
    | succ second =>
      have numbers := ofNat_injective (List.append_cancel_left same)
      omega

theorem exists_candidate_notMem (names : ClassNames) (base : Text) :
    ∃ n ≤ names.reserved.length, candidate base n ∉ names.taken := by
  by_contra none
  push Not at none
  have subset : (List.range (names.reserved.length + 1)).map (candidate base) ⊆ names.taken := by
    intro name member
    obtain ⟨n, listed, rfl⟩ := List.mem_map.mp member
    exact none n (by have := List.mem_range.mp listed; omega)
  have distinct := List.Nodup.map (candidate_injective base)
    (List.nodup_range (n := names.reserved.length + 1))
  have bound := (List.subperm_of_subset distinct subset).length_le
  rw [List.length_map, List.length_range, taken, List.length_map] at bound
  omega

structure FirstFree (names : ClassNames) (base : Text) (n : Nat) : Prop where
  free : candidate base n ∉ names.taken
  before : ∀ m < n, candidate base m ∈ names.taken

theorem exists_firstFree (names : ClassNames) (base : Text) :
    ∃ n ≤ names.reserved.length, FirstFree names base n ∧ names.free base = candidate base n := by
  unfold free
  split
  · rename_i taken
    have first : candidate base 0 ∈ names.taken := isTaken_iff.mp taken
    split
    · rename_i n found
      obtain ⟨free, listed, earlier⟩ := List.find?_range_eq_some.mp found
      refine ⟨n + 1, List.mem_range.mp listed, ⟨?_, ?_⟩, rfl⟩
      · rwa [Bool.not_eq_true', ← Bool.not_eq_true, isTaken_iff] at free
      · rintro (_ | m) less
        · exact first
        · have taken := earlier m (Nat.lt_of_succ_lt_succ less)
          rwa [Bool.not_not, isTaken_iff] at taken
    · rename_i none
      -- The base and as many numbers as there are names would be taken.
      obtain ⟨n, bound, free⟩ := exists_candidate_notMem names base
      cases n with
      | zero => exact absurd first free
      | succ n =>
        have taken := List.find?_range_eq_none.mp none n bound
        rw [Bool.not_not, isTaken_iff] at taken
        exact absurd taken free
  · rename_i free
    exact ⟨0, Nat.zero_le _, ⟨fun member => free (isTaken_iff.mpr member), nofun⟩, rfl⟩

theorem free_notMem (names : ClassNames) (base : Text) : names.free base ∉ names.taken := by
  obtain ⟨n, -, first, same⟩ := names.exists_firstFree base
  exact same ▸ first.free

theorem free_eq (names : ClassNames) (base : Text) :
    names.free base = base ∨ ∃ n, 2 ≤ n ∧ names.free base = numbered base n := by
  obtain ⟨n, -, -, same⟩ := names.exists_firstFree base
  cases n with
  | zero => exact .inl same
  | succ n => exact .inr ⟨n + 2, Nat.le_add_left 2 n, same⟩

theorem nameOf?_eq_none {names : ClassNames} {node : Node} :
    names.nameOf? node = none ↔ node.position ∉ names.positions := by
  simp only [nameOf?, Option.map_eq_none_iff, List.find?_eq_none, positions, List.mem_map, beq_iff_eq,
    not_exists, not_and]

theorem mem_of_nameOf? {names : ClassNames} {node : Node} {name : Text}
    (found : names.nameOf? node = some name) : (name, node.position) ∈ names.reserved := by
  obtain ⟨entry, first, rfl⟩ := Option.map_eq_some_iff.mp found
  have same := List.find?_some first
  rw [beq_iff_eq] at same
  rw [← same]
  exact List.mem_of_find?_eq_some first

theorem Distinct.position_eq {names : ClassNames} (distinct : names.Distinct) {first second : Node}
    {name : Text} (one : names.nameOf? first = some name) (two : names.nameOf? second = some name) :
    first.position = second.position :=
  congrArg Prod.snd (List.inj_on_of_nodup_map distinct.namesApart (mem_of_nameOf? one) (mem_of_nameOf? two) rfl)

theorem reserve_of_some {names : ClassNames} {node : Node} {name : Text} (base : Text)
    (known : names.nameOf? node = some name) : names.reserve base node = (name, names) := by
  rw [reserve, known]

theorem reserve_of_none {names : ClassNames} {node : Node} (base : Text)
    (new : names.nameOf? node = none) : names.reserve base node =
      (names.free base, ⟨names.reserved ++ [(names.free base, node.position)]⟩) := by
  rw [reserve, new]

theorem Distinct.reserve {names : ClassNames} (distinct : names.Distinct) (base : Text)
    (node : Node) : (names.reserve base node).2.Distinct := by
  cases known : names.nameOf? node with
  | some name =>
    rw [reserve_of_some base known]
    exact distinct
  | none =>
    rw [reserve_of_none base known]
    constructor
    · rw [taken, List.map_append]
      exact List.concat_eq_append ▸ distinct.namesApart.concat (free_notMem names base)
    · rw [positions, List.map_append]
      exact List.concat_eq_append ▸ distinct.nodesApart.concat (nameOf?_eq_none.mp known)

theorem nameOf?_reserve (names : ClassNames) (base : Text) (node : Node) :
    (names.reserve base node).2.nameOf? node = some (names.reserve base node).1 := by
  cases known : names.nameOf? node with
  | some name => rw [reserve_of_some base known, known]
  | none =>
    rw [reserve_of_none base known]
    have earlier := Option.map_eq_none_iff.mp known
    simp [nameOf?, List.find?_append, earlier]

theorem extends_reserve (names : ClassNames) (base : Text) (node : Node) :
    names.Extends (names.reserve base node).2 := by
  intro other name found
  cases known : names.nameOf? node with
  | some name => rw [reserve_of_some base known, found]
  | none =>
    rw [reserve_of_none base known]
    obtain ⟨entry, first, rfl⟩ := Option.map_eq_some_iff.mp found
    simp [nameOf?, List.find?_append, first]

theorem position_eq_of_reserve {names : ClassNames} {base : Text} {node other : Node}
    (named : ((names.reserve base node).2.nameOf? other).isSome) (new : names.nameOf? other = none) :
    other.position = node.position := by
  cases known : names.nameOf? node with
  | some name =>
    rw [reserve_of_some base known, new] at named
    contradiction
  | none =>
    rw [reserve_of_none base known] at named
    have earlier := Option.map_eq_none_iff.mp new
    by_contra different
    simp [nameOf?, List.find?_append, earlier, Ne.symm different] at named

def Each (holds : Text → List Nat → Prop) (names : ClassNames) : Prop :=
  ∀ entry ∈ names.reserved, holds entry.1 entry.2

theorem each_empty (holds : Text → List Nat → Prop) : empty.Each holds := nofun

def Fits (holds : Text → List Nat → Prop) (base : Text) (node : Node) : Prop :=
  ∀ names : ClassNames, holds (names.free base) node.position

theorem Each.reserve {holds : Text → List Nat → Prop} {names : ClassNames} (each : names.Each holds)
    {base : Text} {node : Node} (fits : Fits holds base node) :
    (names.reserve base node).2.Each holds := by
  cases known : names.nameOf? node with
  | some name =>
    rw [reserve_of_some base known]
    exact each
  | none =>
    rw [reserve_of_none base known]
    exact List.forall_mem_append.mpr ⟨each, List.forall_mem_singleton.mpr (fits names)⟩

theorem Extends.refl (names : ClassNames) : names.Extends names := fun _ _ found => found

theorem Extends.trans {names middle later : ClassNames} (first : names.Extends middle)
    (second : middle.Extends later) : names.Extends later :=
  fun node name found => second node name (first node name found)

theorem Extends.isSome {names later : ClassNames} (more : names.Extends later) {node : Node}
    (named : (names.nameOf? node).isSome) : (later.nameOf? node).isSome := by
  obtain ⟨name, found⟩ := Option.isSome_iff_exists.mp named
  rw [more node name found]
  rfl

/-- One node after the other gets a name, each by a request of the kind. -/
def Grants (asks : Text → Node → Prop) : ClassNames → ClassNames → Prop :=
  Relation.ReflTransGen fun names later =>
    ∃ base node, asks base node ∧ later = (names.reserve base node).2

namespace Grants

variable {asks also : Text → Node → Prop} {names later : ClassNames}

theorem one {base : Text} {node : Node} (asked : asks base node) :
    Grants asks names (names.reserve base node).2 :=
  .single ⟨base, node, asked, rfl⟩

theorem mono (grants : Grants asks names later) (more : ∀ base node, asks base node → also base node) :
    Grants also names later :=
  Relation.ReflTransGen.mono (fun _ _ ⟨base, node, asked, same⟩ => ⟨base, node, more base node asked, same⟩)
    _ _ grants

theorem kept (grants : Grants asks names later) : names.Extends later := by
  induction grants with
  | refl => exact .refl names
  | tail _ step ih =>
    obtain ⟨base, node, -, rfl⟩ := step
    exact ih.trans (extends_reserve _ base node)

theorem distinct (grants : Grants asks names later) (distinct : names.Distinct) : later.Distinct := by
  induction grants with
  | refl => exact distinct
  | tail _ step ih =>
    obtain ⟨base, node, -, rfl⟩ := step
    exact ih.reserve base node

theorem each {holds : Text → List Nat → Prop} (grants : Grants asks names later)
    (each : names.Each holds) (fits : ∀ base node, asks base node → Fits holds base node) :
    later.Each holds := by
  induction grants with
  | refl => exact each
  | tail _ step ih =>
    obtain ⟨base, node, asked, rfl⟩ := step
    exact ih.reserve (fits base node asked)

end Grants

end SchemaClasses.Schema.ClassNames
