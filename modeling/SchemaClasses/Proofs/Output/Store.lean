import Mathlib.Data.List.Dedup
import Mathlib.Data.List.Induction
import SchemaClasses.Output.Store
import SchemaClasses.Proofs.Path

set_option autoImplicit false

namespace SchemaClasses

def Artifact.place (artifact : Artifact) : List Component := artifact.path.components

namespace Store

def putAll (store : Store) (artifacts : List Artifact) : Store :=
  artifacts.foldl (fun store artifact => store.put artifact.path artifact.content) store

theorem putAll_concat (store : Store) (artifacts : List Artifact) (last : Artifact) :
    store.putAll (artifacts ++ [last]) = (store.putAll artifacts).put last.path last.content := by
  simp [putAll]

def contentAt? (place : List Component) : List Artifact → Option Text
  | [] => none
  | file :: files => if file.place = place then some file.content else contentAt? place files

theorem get?_eq (store : Store) (path : Path) :
    store.get? path = contentAt? path.components store.files := by
  unfold get?
  induction store.files with
  | nil => rfl
  | cons file files ih =>
    by_cases same : file.path.components = path.components
    · simp [contentAt?, Artifact.place, same]
    · simpa [contentAt?, Artifact.place, same] using ih

theorem contentAt?_insert (path : Path) (content : Text) (files : List Artifact)
    (place : List Component) : contentAt? place (insert path content files) =
      if path.components = place then some content else contentAt? place files := by
  induction files with
  | nil => rfl
  | cons file files ih =>
    rw [insert]
    cases order : path.compare file.path with
    | lt => rfl
    | eq =>
      have same : path.components = file.place := Path.compare_eq_iff.mp order
      rw [same]
      by_cases here : file.place = place <;> simp_all [contentAt?, Artifact.place]
    | gt =>
      have different : file.place ≠ path.components :=
        Path.components_ne_of_lt (Path.compare_gt_iff.mp order)
      by_cases here : file.place = place
      · have other : path.components ≠ place := fun same => different (here.trans same.symm)
        simp [contentAt?, here, other]
      · simp [contentAt?, here, ih]

theorem get?_putAll (artifacts : List Artifact) (path : Path) :
    (empty.putAll artifacts).get? path = contentAt? path.components artifacts.reverse := by
  rw [get?_eq]
  induction artifacts using List.reverseRecOn with
  | nil => rfl
  | append_singleton artifacts last ih =>
    rw [putAll_concat, put, contentAt?_insert, ih, List.reverse_concat, contentAt?]
    rfl

theorem contentAt?_of_mem {files : List Artifact} {file : Artifact}
    (apart : (files.map Artifact.place).Nodup) (member : file ∈ files) :
    contentAt? file.place files = some file.content := by
  induction files with
  | nil => contradiction
  | cons first rest ih =>
    obtain ⟨new, later⟩ := List.nodup_cons.mp apart
    rcases List.mem_cons.mp member with rfl | behind
    · exact if_pos rfl
    · have other : first.place ≠ file.place := fun same =>
        new (same ▸ List.mem_map_of_mem behind)
      rw [contentAt?, if_neg other, ih later behind]

theorem exists_of_contentAt? {place : List Component} {files : List Artifact} {content : Text}
    (held : contentAt? place files = some content) :
    ∃ file ∈ files, file.place = place ∧ file.content = content := by
  induction files with
  | nil => cases held
  | cons first rest ih =>
    rw [contentAt?] at held
    split at held
    · rename_i here
      exact ⟨first, List.mem_cons_self, here, Option.some.inj held⟩
    · obtain ⟨file, later, found⟩ := ih held
      exact ⟨file, List.mem_cons_of_mem _ later, found⟩

def Sorted (store : Store) : Prop :=
  store.files.Pairwise fun first second => first.path.compare second.path = .lt

theorem path_of_mem_insert {path : Path} {content : Text} {files : List Artifact} {file : Artifact}
    (member : file ∈ insert path content files) :
    file.path = path ∨ ∃ other ∈ files, other.path = file.path := by
  induction files with
  | nil =>
    obtain rfl := List.mem_singleton.mp member
    exact .inl rfl
  | cons first rest ih =>
    rw [insert] at member
    cases order : path.compare first.path with
    | lt =>
      rw [order] at member
      rcases List.mem_cons.mp member with rfl | later
      · exact .inl rfl
      · exact .inr ⟨file, later, rfl⟩
    | eq =>
      rw [order] at member
      rcases List.mem_cons.mp member with rfl | later
      · exact .inr ⟨first, List.mem_cons_self, rfl⟩
      · exact .inr ⟨file, List.mem_cons_of_mem _ later, rfl⟩
    | gt =>
      rw [order] at member
      rcases List.mem_cons.mp member with rfl | later
      · exact .inr ⟨file, List.mem_cons_self, rfl⟩
      · rcases ih later with here | ⟨other, listed, same⟩
        · exact .inl here
        · exact .inr ⟨other, List.mem_cons_of_mem _ listed, same⟩

theorem Sorted.put {store : Store} (sorted : store.Sorted) (path : Path) (content : Text) :
    (store.put path content).Sorted := by
  obtain ⟨files⟩ := store
  rw [Sorted, Store.put]
  rw [Sorted] at sorted
  induction files with
  | nil => exact List.pairwise_singleton _ _
  | cons first rest ih =>
    obtain ⟨least, later⟩ := List.pairwise_cons.mp sorted
    simp only [insert]
    cases order : path.compare first.path with
    | lt =>
      refine List.pairwise_cons.mpr ⟨?_, sorted⟩
      intro file member
      rcases List.mem_cons.mp member with rfl | behind
      · exact order
      · exact Path.compare_lt_trans order (least file behind)
    | eq => exact List.pairwise_cons.mpr ⟨least, later⟩
    | gt =>
      refine List.pairwise_cons.mpr ⟨?_, ih later⟩
      intro file member
      rcases path_of_mem_insert member with here | ⟨other, listed, same⟩
      · exact here ▸ Path.compare_gt_iff.mp order
      · exact same ▸ least other listed

theorem sorted_putAll (artifacts : List Artifact) : (empty.putAll artifacts).Sorted := by
  induction artifacts using List.reverseRecOn with
  | nil => exact List.Pairwise.nil
  | append_singleton artifacts last ih =>
    rw [putAll_concat]
    exact ih.put last.path last.content

theorem mem_places_insert {path : Path} {content : Text} {files : List Artifact}
    {place : List Component} : place ∈ (insert path content files).map Artifact.place ↔
      place = path.components ∨ place ∈ files.map Artifact.place := by
  induction files with
  | nil => simp [insert, Artifact.place]
  | cons file files ih =>
    rw [insert]
    cases order : path.compare file.path with
    | lt => simp [Artifact.place]
    | eq => simp [Artifact.place, Path.compare_eq_iff.mp order]
    | gt =>
      rw [List.map_cons, List.mem_cons, ih, List.map_cons, List.mem_cons]
      exact or_left_comm

theorem mem_places_putAll (artifacts : List Artifact) (place : List Component) :
    place ∈ (empty.putAll artifacts).files.map Artifact.place ↔
      place ∈ artifacts.map Artifact.place := by
  induction artifacts using List.reverseRecOn with
  | nil => exact Iff.rfl
  | append_singleton artifacts last ih =>
    rw [putAll_concat, put, mem_places_insert, ih, List.map_append, List.mem_append, or_comm]
    simp [Artifact.place]

theorem Sorted.places_nodup {store : Store} (sorted : store.Sorted) :
    (store.files.map Artifact.place).Nodup := by
  rw [List.Nodup, List.pairwise_map]
  exact sorted.imp Path.components_ne_of_lt

theorem places_putAll_perm (artifacts : List Artifact) :
    ((empty.putAll artifacts).files.map Artifact.place).Perm (artifacts.map Artifact.place).dedup := by
  rw [List.perm_ext_iff_of_nodup (sorted_putAll artifacts).places_nodup (List.nodup_dedup _)]
  intro place
  rw [mem_places_putAll, List.mem_dedup]

theorem size_putAll (artifacts : List Artifact) :
    (empty.putAll artifacts).size = (artifacts.map Artifact.place).dedup.length := by
  rw [size, ← (places_putAll_perm artifacts).length_eq, List.length_map]

end Store

end SchemaClasses
