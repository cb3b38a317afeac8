import SchemaClasses.Proofs.Output.Store

set_option autoImplicit false

namespace SchemaClasses

namespace Store

def isAt (place : List Component) (artifact : Artifact) : Bool := artifact.place == place

def writesTo (place : List Component) (writes : List Artifact) : List Artifact :=
  writes.filter (isAt place)

def fileAt? (place : List Component) (store : Store) : Option Artifact := store.files.find? (isAt place)

/-- The path of the first write and the content of the last one. -/
def merged? (writes : List Artifact) : Option Artifact :=
  writes.head?.bind fun first => writes.getLast?.map fun last => ⟨first.path, last.content⟩

theorem merged?_concat (writes : List Artifact) (last : Artifact) : merged? (writes ++ [last]) =
    some ⟨((merged? writes).map Artifact.path).getD last.path, last.content⟩ := by
  cases writes with
  | nil => rfl
  | cons first rest =>
    have ends := List.getLast?_eq_some_getLast (List.cons_ne_nil first rest)
    rw [merged?, merged?, List.getLast?_concat, ends]
    rfl

theorem writesTo_concat (place : List Component) (writes : List Artifact) (last : Artifact) :
    writesTo place (writes ++ [last]) =
      if last.place = place then writesTo place writes ++ [last] else writesTo place writes := by
  by_cases here : last.place = place <;> simp [writesTo, isAt, List.filter_append, here]

theorem find?_eq_none_of_lt {path : Path} {file : Artifact} {rest : List Artifact}
    (sorted : Sorted ⟨file :: rest⟩) (order : path.compare file.path = .lt) :
    (file :: rest).find? (isAt path.components) = none := by
  obtain ⟨least, -⟩ := List.pairwise_cons.mp sorted
  refine List.find?_eq_none.mpr fun other member => ?_
  have before : path.compare other.path = .lt := by
    rcases List.mem_cons.mp member with rfl | later
    · exact order
    · exact Path.compare_lt_trans order (least other later)
  simpa [isAt, Artifact.place] using (Path.components_ne_of_lt before).symm

theorem Sorted.fileAt?_put {store : Store} (sorted : store.Sorted) (path : Path) (content : Text)
    (place : List Component) : (store.put path content).fileAt? place =
      if path.components = place then
        some ⟨((store.fileAt? place).map Artifact.path).getD path, content⟩
      else store.fileAt? place := by
  obtain ⟨files⟩ := store
  simp only [fileAt?, Store.put]
  induction files with
  | nil => by_cases here : path.components = place <;> simp [insert, isAt, Artifact.place, here]
  | cons file rest ih =>
    obtain ⟨-, later⟩ := List.pairwise_cons.mp sorted
    rw [insert]
    cases order : path.compare file.path with
    | lt =>
      by_cases here : path.components = place
      · have none := find?_eq_none_of_lt sorted order
        rw [here] at none
        simp [isAt, Artifact.place, here, none]
      · simp [isAt, Artifact.place, here]
    | eq =>
      have same : path.components = file.place := Path.compare_eq_iff.mp order
      rw [same]
      by_cases here : file.place = place <;> simp_all [isAt, Artifact.place]
    | gt =>
      have different : file.place ≠ path.components :=
        Path.components_ne_of_lt (Path.compare_gt_iff.mp order)
      by_cases here : file.place = place
      · have other : path.components ≠ place := fun same => different (here.trans same.symm)
        simp [isAt, here, other]
      · simpa [isAt, here] using ih later

theorem fileAt?_putAll (place : List Component) (writes : List Artifact) :
    (empty.putAll writes).fileAt? place = merged? (writesTo place writes) := by
  induction writes using List.reverseRecOn with
  | nil => rfl
  | append_singleton writes last ih =>
    rw [putAll_concat, (sorted_putAll writes).fileAt?_put, ih, writesTo_concat]
    by_cases here : last.path.components = place
    · have same : last.place = place := here
      rw [if_pos here, if_pos same, merged?_concat]
    · have other : last.place ≠ place := here
      rw [if_neg here, if_neg other]

theorem Sorted.mem_iff {store : Store} (sorted : store.Sorted) {file : Artifact} :
    file ∈ store.files ↔ store.fileAt? file.place = some file := by
  constructor
  · intro member
    cases found : store.fileAt? file.place with
    | none => exact absurd (beq_self_eq_true file.place) (List.find?_eq_none.mp found file member)
    | some other =>
      have here := List.find?_some found
      have same : other.place = file.place := beq_iff_eq.mp here
      rw [List.inj_on_of_nodup_map sorted.places_nodup (List.mem_of_find?_eq_some found) member same]
  · exact List.mem_of_find?_eq_some

theorem merged?_content (writes : List Artifact) :
    (merged? writes).map Artifact.content = writes.getLast?.map Artifact.content := by
  cases writes with
  | nil => rfl
  | cons first rest =>
    have ends := List.getLast?_eq_some_getLast (List.cons_ne_nil first rest)
    rw [merged?, ends]
    rfl

theorem run_writer (writes : List Artifact) (store : Store) :
    (writes.forM fun write => Store.writer write.path write.content).run.run store =
      (.ok (), store.putAll writes) := by
  induction writes generalizing store with
  | nil => rfl
  | cons write rest ih => exact ih (store.put write.path write.content)

theorem keeps_last_writes (writes : List Artifact) :
    ∃ store, (writes.forM fun write => writer write.path write.content).run.run empty = (.ok (), store) ∧
      (∀ path, store.get? path = (writesTo path.components writes).getLast?.map Artifact.content) ∧
      store.Sorted ∧ (store.files.map Artifact.place).Perm (writes.map Artifact.place).dedup ∧
      (∀ file, file ∈ store.files ↔ merged? (writesTo file.place writes) = some file) ∧
      store.size = (writes.map Artifact.place).dedup.length := by
  have sorted := sorted_putAll writes
  refine ⟨empty.putAll writes, run_writer writes empty, fun path => ?_, sorted, ?_, fun file => ?_,
    size_putAll writes⟩
  · rw [← merged?_content, ← fileAt?_putAll]
    rfl
  · exact places_putAll_perm writes
  · rw [sorted.mem_iff, fileAt?_putAll]

example :
    let first : Artifact := ⟨⟨"out//Rig.cs".toList⟩, "first".toList⟩
    let last : Artifact := ⟨⟨"out/./Rig.cs".toList⟩, "last".toList⟩
    (empty.putAll [first, last]).files = [⟨first.path, last.content⟩] := by decide

end Store

end SchemaClasses
