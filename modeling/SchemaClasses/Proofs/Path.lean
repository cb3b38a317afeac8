import Mathlib.Data.List.Basic
import Mathlib.Tactic.SplitIfs
import SchemaClasses.Path
import SchemaClasses.Proofs.Text.Pieces

set_option autoImplicit false

namespace SchemaClasses

namespace Component

theorem key_injective : Function.Injective key := by
  intro first second same
  cases first <;> cases second <;> simp only [key, List.cons.injEq] at same
  case name.name first second =>
    exact congrArg name (List.map_injective_iff.mpr (fun _ _ => Char.toNat_inj.mp) same.2)
  all_goals simp_all

def ofFile (file : Text) : List Component := (ofPiece? file).toList

theorem filterMap_ofPiece? (piece : Text) : [piece].filterMap ofPiece? = ofFile piece := by
  cases found : ofPiece? piece <;> simp [ofFile, found]

theorem ofFile_injective {first second : Text} (one : first ≠ []) (two : second ≠ [])
    (same : ofFile first = ofFile second) : first = second := by
  simp only [ofFile, ofPiece?, one, two, false_or] at same
  split_ifs at same <;> simp_all

theorem current_notMem_ofFile (file : Text) : current ∉ ofFile file := by
  unfold ofFile ofPiece?
  split_ifs <;> simp

structure IsFileName (file : Text) : Prop where
  nonempty : file ≠ []
  single : '/' ∉ file
  noCurrent : file ≠ ['.']
  noParent : file ≠ ['.', '.']

theorem isFileName_iff {file : Text} : IsFileName file ↔
    file ≠ [] ∧ '/' ∉ file ∧ file ≠ ['.'] ∧ file ≠ ['.', '.'] :=
  ⟨fun named => ⟨named.nonempty, named.single, named.noCurrent, named.noParent⟩,
    fun ⟨nonempty, single, noCurrent, noParent⟩ => ⟨nonempty, single, noCurrent, noParent⟩⟩

instance (file : Text) : Decidable (IsFileName file) := decidable_of_iff' _ isFileName_iff

theorem IsFileName.ofFile_eq {file : Text} (named : IsFileName file) : ofFile file = [name file] := by
  simp [ofFile, ofPiece?, named.nonempty, named.noCurrent, named.noParent]

end Component

namespace Path

theorem compare_eq_iff {p q : Path} : compare p q = .eq ↔ p.components = q.components := by
  rw [compare, Std.LawfulEqOrd.compare_eq_iff_eq]
  exact (List.map_injective_iff.mpr Component.key_injective).eq_iff

theorem compare_lt_trans {p q r : Path} (one : compare p q = .lt) (two : compare q r = .lt) :
    compare p r = .lt := by
  rw [compare] at one two ⊢
  exact Std.TransCmp.lt_trans one two

theorem compare_gt_iff {p q : Path} : compare p q = .gt ↔ compare q p = .lt := by
  rw [compare, compare]
  exact Std.OrientedCmp.gt_iff_lt

theorem components_ne_of_lt {p q : Path} (less : compare p q = .lt) :
    p.components ≠ q.components := by
  intro same
  rw [compare_eq_iff.mpr same] at less
  contradiction

theorem anchor_slash {before : Text} (nonempty : before ≠ []) (after : Text) :
    (⟨before ++ '/' :: after⟩ : Path).anchor =
      ((⟨before⟩ : Path).anchor.1, (⟨before⟩ : Path).anchor.2 ++ '/' :: after) := by
  rcases before with _ | ⟨c, inner⟩
  · contradiction
  · by_cases slash : c = '/'
    · subst slash
      simp [anchor]
    · by_cases dot : c = '.'
      · subst dot
        rcases inner with _ | ⟨d, inner⟩
        · rfl
        · by_cases slash : d = '/'
          · subst slash
            simp [anchor]
          · simp [anchor, slash]
      · simp [anchor, slash, dot]

theorem components_slash {before file : Text} (nonempty : before ≠ []) (single : '/' ∉ file) :
    (⟨before ++ '/' :: file⟩ : Path).components =
      (⟨before⟩ : Path).components ++ Component.ofFile file := by
  rw [components, anchor_slash nonempty, Text.splitOn_append, Text.splitOn_of_notMem single,
    List.filterMap_append, Component.filterMap_ofPiece?, ← List.append_assoc]
  rfl

theorem components_root_slash {file : Text} (single : '/' ∉ file) :
    (⟨'/' :: file⟩ : Path).components = .root :: Component.ofFile file := by
  have anchored : (⟨'/' :: file⟩ : Path).anchor = (['/'], file) := rfl
  rw [components, anchored, Text.splitOn_of_notMem single, Component.filterMap_ofPiece?]
  rfl

theorem components_file {file : Text} (single : '/' ∉ file) (visible : file ≠ ['.']) :
    (⟨file⟩ : Path).components = Component.ofFile file := by
  have anchored : (⟨file⟩ : Path).anchor = ([], file) := by
    rcases file with _ | ⟨c, _ | ⟨d, rest⟩⟩
    · rfl
    · have other : c ≠ '/' := fun same => single (same ▸ List.mem_cons_self)
      simp [anchor, other]
    · have other : c ≠ '/' := fun same => single (same ▸ List.mem_cons_self)
      have next : d ≠ '/' := fun same => single (by simp [same])
      simp [anchor, other, next]
  rw [components, anchored, Text.splitOn_of_notMem single, Component.filterMap_ofPiece?]
  rfl

theorem join_file (directory : Path) {file : Text} (single : '/' ∉ file) :
    (directory.text = [] ∧ directory.join ⟨file⟩ = ⟨file⟩) ∨
      ∃ before, (directory.text = before ++ ['/'] ∨ directory.text = before ∧ before ≠ []) ∧
        directory.join ⟨file⟩ = ⟨before ++ '/' :: file⟩ := by
  have relative : (⟨file⟩ : Path).isAbsolute = false := by
    cases file with
    | nil => rfl
    | cons c rest =>
      have other : c ≠ '/' := fun same => single (same ▸ List.mem_cons_self)
      simp [isAbsolute, other]
  obtain ⟨text⟩ := directory
  obtain rfl | ⟨before, last, rfl⟩ := List.eq_nil_or_concat text
  · exact .inl ⟨rfl, by simp [join, relative]⟩
  · right
    by_cases slash : last = '/'
    · exact ⟨before, .inl (by simp [slash]), by simp [join, relative, slash]⟩
    · exact ⟨before ++ [last], .inr (by simp), by simp [join, relative, slash]⟩

theorem components_join_file {directory : Path} {file : Text} (single : '/' ∉ file)
    (visible : directory.text = [] → file ≠ ['.']) :
    (directory.join ⟨file⟩).components = directory.components ++ Component.ofFile file := by
  rcases join_file directory single with ⟨empty, alone⟩ | ⟨before, place, joined⟩
  · have nothing : directory.components = [] := by
      obtain ⟨text⟩ := directory
      rw [show text = [] from empty]
      rfl
    rw [alone, components_file single (visible empty), nothing, List.nil_append]
  · obtain ⟨text⟩ := directory
    rw [joined]
    rcases place with slash | ⟨same, nonempty⟩
    · -- A slash at the end of the directory stands for nothing, unless it is the root.
      rw [show text = before ++ ['/'] from slash]
      by_cases nonempty : before = []
      · subst nonempty
        exact components_root_slash single
      · rw [components_slash nonempty single, components_slash nonempty List.not_mem_nil,
          show Component.ofFile [] = [] from rfl, List.append_nil]
    · rw [show text = before from same, components_slash nonempty single]

theorem components_join_isFileName (directory : Path) {file : Text}
    (named : Component.IsFileName file) :
    (directory.join ⟨file⟩).components = directory.components ++ [.name file] := by
  rw [components_join_file named.single fun _ => named.noCurrent, named.ofFile_eq]

theorem eq_of_components_join {directory : Path} {first second : Text} (one : '/' ∉ first)
    (two : '/' ∉ second) (nonempty : first ≠ []) (other : second ≠ [])
    (same : (directory.join ⟨first⟩).components = (directory.join ⟨second⟩).components) :
    first = second := by
  have cancel (here : directory.text = [] → first ≠ ['.'])
      (there : directory.text = [] → second ≠ ['.']) : first = second := by
    rw [components_join_file one here, components_join_file two there] at same
    exact Component.ofFile_injective nonempty other (List.append_cancel_left same)
  by_cases empty : directory.text = []
  · -- A dot alone is the working directory, and no other name has that component.
    have alone {file : Text} (single : '/' ∉ file) : directory.join ⟨file⟩ = ⟨file⟩ := by
      rcases join_file directory single with ⟨-, alone⟩ | ⟨before, place, -⟩
      · exact alone
      · rcases place with slash | ⟨same, nonempty⟩
        · simp [empty] at slash
        · exact absurd (same.symm.trans empty) nonempty
    rw [alone one, alone two] at same
    have dot {file : Text} (single : '/' ∉ file)
        (same : (⟨['.']⟩ : Path).components = (⟨file⟩ : Path).components) : file = ['.'] := by
      by_contra visible
      have member : Component.current ∈ (⟨file⟩ : Path).components := same ▸ List.mem_cons_self
      rw [components_file single visible] at member
      exact Component.current_notMem_ofFile file member
    by_cases here : first = ['.']
    · subst here
      exact (dot two same).symm
    · by_cases there : second = ['.']
      · subst there
        exact dot one same.symm
      · exact cancel (fun _ => here) (fun _ => there)
  · exact cancel (fun same => absurd same empty) (fun same => absurd same empty)

end Path

end SchemaClasses
