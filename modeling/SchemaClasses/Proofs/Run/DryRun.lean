import SchemaClasses.Proofs.Files.Tree
import SchemaClasses.Proofs.Run.ArtifactPaths

set_option autoImplicit false

namespace SchemaClasses

def Path.Holds (directory path : Path) : Prop :=
  ∃ file, Component.IsFileName file ∧ path = directory.join ⟨file⟩

/-- Since the start the tree has gained the files of the store, and directories on the way to them. -/
structure FileTree.Mirrors (directory : Path) (start tree : FileTree) (store : Store) : Prop where
  workingDirectory : tree.workingDirectory = start.workingDirectory
  inside : ∀ artifact ∈ store.files, directory.Holds artifact.path
  files : ∀ file, Component.IsFileName file →
    tree.entryAt? (start.locationOf directory ++ [file]) =
      (store.get? (directory.join ⟨file⟩)).map fun text => .file (.text text)
  others : ∀ location, (∀ file, Component.IsFileName file →
      location ≠ start.locationOf directory ++ [file]) →
    tree.entryAt? location = start.entryAt? location ∨
      (start.entryAt? location = none ∧ tree.entryAt? location = some .directory ∧
        location <+: start.locationOf directory)

namespace FileTree

variable {directory : Path} {start tree after : FileTree} {store : Store}

theorem locationOf_join (tree : FileTree) (direct : directory.Direct) {file : Text}
    (named : Component.IsFileName file) :
    (directory.join ⟨file⟩).Direct ∧
      tree.locationOf (directory.join ⟨file⟩) = tree.locationOf directory ++ [file] := by
  obtain ⟨undotted, ground, names⟩ := Path.file_of_join direct named
  refine ⟨undotted, ?_⟩
  rw [locationOf, locationOf, ground, names, List.append_assoc]

namespace Mirrors

theorem of_vacant (vacant : tree.Vacant (tree.locationOf directory)) :
    Mirrors directory tree tree .empty where
  workingDirectory := rfl
  inside := fun _ member => absurd member List.not_mem_nil
  files := fun file _ => vacant.nothing file []
  others := fun _ _ => .inl rfl

theorem call (mirrors : Mirrors directory start tree store) (direct : directory.Direct)
    {artifact : Artifact} (held : directory.Holds artifact.path)
    (accepted : access.writer.call artifact tree = (.ok (), after)) :
    Mirrors directory start after (store.put artifact.path artifact.content) := by
  obtain ⟨path, content⟩ := artifact
  obtain ⟨file, named, rfl⟩ := held
  obtain ⟨undotted, place⟩ := locationOf_join tree direct named
  obtain ⟨middle, leads, -, rfl⟩ := exists_of_writer undotted accepted
  have home : tree.locationOf directory = start.locationOf directory := by
    rw [locationOf, locationOf, mirrors.workingDirectory]
  rw [place, home, List.dropLast_concat] at leads
  rw [place, home]
  have below : start.locationOf directory ++ [file] ≠ [] := by simp
  refine ⟨leads.workingDirectory.trans mirrors.workingDirectory, ?_, ?_, ?_⟩
  · intro other member
    rcases Store.path_of_mem_insert member with same | ⟨before, listed, same⟩
    · exact ⟨file, named, same⟩
    · exact same ▸ mirrors.inside before listed
  · intro other ordinary
    have kept : middle.entryAt? (start.locationOf directory ++ [other]) =
        tree.entryAt? (start.locationOf directory ++ [other]) := by
      rcases leads.entries (start.locationOf directory ++ [other]) with same | ⟨-, -, upward⟩
      · exact same
      · have short := upward.length_le
        rw [List.length_append, List.length_singleton] at short
        omega
    rw [entryAt?_put below, kept, mirrors.files other ordinary, Store.get?_eq, Store.get?_eq,
      Store.put, Store.contentAt?_insert]
    by_cases same : other = file
    · simp [same]
    · have apart : (directory.join ⟨file⟩).components ≠ (directory.join ⟨other⟩).components :=
        fun equal => same (Path.eq_of_components_join named.single ordinary.single named.nonempty
          ordinary.nonempty equal).symm
      simp [same, apart]
  · intro location outside
    rw [entryAt?_put below, if_neg (outside file named)]
    rcases leads.entries location with same | ⟨absent, made, upward⟩
    · rw [same]
      exact mirrors.others location outside
    · rcases mirrors.others location outside with before | ⟨-, there, -⟩
      · exact .inr ⟨before ▸ absent, made, upward⟩
      · rw [absent] at there
        cases there

theorem takes {artifacts : List Artifact} (mirrors : Mirrors directory start tree store)
    (direct : directory.Direct) (held : ∀ artifact ∈ artifacts, directory.Holds artifact.path)
    (taken : access.writer.Takes artifacts tree after) :
    Mirrors directory start after (store.putAll artifacts) := by
  induction taken generalizing store with
  | none state => exact mirrors
  | next accepted later ih =>
    obtain ⟨here, others⟩ := List.forall_mem_cons.mp held
    exact ih (mirrors.call direct here accepted) others

theorem file_iff (mirrors : Mirrors directory start tree store) (sorted : store.Sorted)
    (direct : directory.Direct) (vacant : start.Vacant (start.locationOf directory))
    {location : Location} (below : start.locationOf directory <+: location) (content : FileContent) :
    tree.entryAt? location = some (.file content) ↔
      ∃ file ∈ store.files, start.locationOf file.path = location ∧ content = .text file.content := by
  constructor
  · intro found
    by_cases child : ∃ file, Component.IsFileName file ∧
        location = start.locationOf directory ++ [file]
    · obtain ⟨file, named, rfl⟩ := child
      rw [mirrors.files file named, Option.map_eq_some_iff] at found
      obtain ⟨text, held, same⟩ := found
      cases same
      rw [Store.get?_eq] at held
      obtain ⟨artifact, member, place, rfl⟩ := Store.exists_of_contentAt? held
      obtain ⟨other, ordinary, spelled⟩ := mirrors.inside artifact member
      rw [Artifact.place, spelled] at place
      have same := Path.eq_of_components_join ordinary.single named.single ordinary.nonempty
        named.nonempty place
      exact ⟨artifact, member, by rw [spelled, same, (locationOf_join start direct named).2], rfl⟩
    · -- There was no file, and none was put there.
      have outside (file : Text) (named : Component.IsFileName file) :
          location ≠ start.locationOf directory ++ [file] :=
        fun here => child ⟨file, named, here⟩
      rcases mirrors.others location outside with same | ⟨-, made, -⟩
      · rw [found] at same
        obtain ⟨_ | ⟨name, rest⟩, rfl⟩ := below
        · rw [List.append_nil] at same
          rcases vacant.free with absent | empty
          · rw [absent] at same
            cases same
          · rw [empty] at same
            cases same
        · rw [vacant.nothing] at same
          cases same
      · rw [found] at made
        cases made
  · rintro ⟨artifact, member, rfl, rfl⟩
    obtain ⟨file, named, spelled⟩ := mirrors.inside artifact member
    rw [spelled, (locationOf_join start direct named).2, mirrors.files file named, ← spelled,
      Store.get?_eq]
    have held := Store.contentAt?_of_mem sorted.places_nodup member
    rw [Artifact.place] at held
    rw [held]
    rfl

theorem locations_nodup (mirrors : Mirrors directory start tree store) (sorted : store.Sorted)
    (direct : directory.Direct) :
    (store.files.map fun file => start.locationOf file.path).Nodup := by
  have apart := sorted.places_nodup
  rw [List.Nodup, List.pairwise_map] at apart ⊢
  refine apart.imp_of_mem ?_
  intro first second one two different same
  obtain ⟨file, named, spelled⟩ := mirrors.inside first one
  obtain ⟨other, ordinary, written⟩ := mirrors.inside second two
  rw [spelled, written, (locationOf_join start direct named).2,
    (locationOf_join start direct ordinary).2] at same
  obtain rfl : file = other := List.singleton_inj.mp (List.append_cancel_left same)
  exact different (by rw [Artifact.place, Artifact.place, spelled, written])

end Mirrors

end FileTree

namespace Pipeline

theorem holds_artifacts {pipeline : Pipeline} {source : Text}
    (named : Component.IsFileName pipeline.outputFile)
    (wrapped : ∀ block ∈ (pipeline.report source).classes,
      Component.IsFileName (pipeline.style.fileName block)) :
    ∀ artifact ∈ pipeline.artifacts source, pipeline.outputDirectory.Holds artifact.path := by
  intro artifact member
  rcases List.mem_cons.mp member with rfl | wrapper
  · exact ⟨pipeline.outputFile, named, rfl⟩
  · obtain ⟨block, found, rfl⟩ := List.mem_map.mp wrapper
    exact ⟨pipeline.style.fileName block, wrapped block found, rfl⟩

theorem files_of_dry_run {pipeline : Pipeline} {source : Text} {tree after : FileTree}
    {report : Report} (direct : pipeline.outputDirectory.Direct)
    (named : Component.IsFileName pipeline.outputFile)
    (wrapped : ∀ block ∈ (pipeline.report source).classes,
      Component.IsFileName (pipeline.style.fileName block))
    (vacant : tree.Vacant (tree.locationOf pipeline.outputDirectory))
    (succeeds : (pipeline.process FileTree.access.writer source).run.run tree =
      (.ok report, after)) :
    let place := tree.locationOf pipeline.outputDirectory
    ∃ store, pipeline.processInMemory source = (.ok report, store) ∧
      (store.files.map fun file => tree.locationOf file.path).Nodup ∧
      (∀ location, place <+: location → ∀ content,
        after.entryAt? location = some (.file content) ↔
          ∃ file ∈ store.files, tree.locationOf file.path = location ∧
            content = .text file.content) ∧
      ∀ location, ¬ place <+: location →
        after.entryAt? location = tree.entryAt? location ∨
          (tree.entryAt? location = none ∧ after.entryAt? location = some .directory ∧
            location <+: place) := by
  intro place
  have sorted := Store.sorted_putAll (pipeline.artifacts source)
  have mirrors := (FileTree.Mirrors.of_vacant vacant).takes direct
    (holds_artifacts named wrapped) (takes_of_process succeeds)
  refine ⟨Store.empty.putAll (pipeline.artifacts source), ?_, mirrors.locations_nodup sorted direct,
    fun location below => mirrors.file_iff sorted direct vacant below, ?_⟩
  · rw [processInMemory_eq, eq_report_of_process succeeds]
  · intro location away
    refine mirrors.others location fun file _ here => away ?_
    rw [here]
    exact List.prefix_append place [file]

theorem two_classes_below_new_directory :
    let pipeline : Pipeline := ⟨.standard, standardOutputFile, ⟨"build/out/".toList⟩, .builtin⟩
    let source := "public partial class A\n\x7b\n\x7d\npublic partial class B\npublic int X;".toList
    let note := FileEntry.file (.bytes [255])
    let tree : FileTree :=
      ⟨["work".toList], [(["work".toList], .directory), (["work".toList, "note".toList], note)]⟩
    let outcome := (pipeline.process FileTree.access.writer source).run.run tree
    let place := ["work".toList, "build".toList, "out".toList]
    pipeline.outputDirectory.Direct ∧ Component.IsFileName pipeline.outputFile ∧
    (∀ block ∈ (pipeline.report source).classes,
      Component.IsFileName (pipeline.style.fileName block)) ∧
    tree.locationOf pipeline.outputDirectory = place ∧ tree.Vacant place ∧
    outcome = (.ok (pipeline.report source), outcome.2) ∧
    ∃ store, pipeline.processInMemory source = (.ok (pipeline.report source), store) ∧
      (∀ location, place <+: location → ∀ content,
        outcome.2.entryAt? location = some (.file content) ↔
          ∃ file ∈ store.files, tree.locationOf file.path = location ∧
            content = .text file.content) ∧
      store.files.map Artifact.path =
        [⟨"build/out/A.cs".toList⟩, ⟨"build/out/B.cs".toList⟩,
          ⟨"build/out/GeneratedClasses.cs".toList⟩] ∧
      outcome.2.entryAt? ["work".toList, "build".toList] = some .directory ∧
      outcome.2.entryAt? ["work".toList, "note".toList] = some note := by
  intro pipeline source note tree outcome place
  have direct : pipeline.outputDirectory.Direct := by decide
  have named : Component.IsFileName pipeline.outputFile := by decide
  have wrapped : ∀ block ∈ (pipeline.report source).classes,
      Component.IsFileName (pipeline.style.fileName block) := by decide +kernel
  have located : tree.locationOf pipeline.outputDirectory = place := by decide
  have vacant : tree.Vacant place := ⟨.inl (by decide), fun name below => rfl⟩
  have finished : outcome.1.isOk = true := by decide +kernel
  have succeeds : outcome = (.ok (pipeline.report source), outcome.2) := by
    rcases ran : outcome with ⟨_ | answer, last⟩
    · rw [ran] at finished
      cases finished
    · rw [eq_report_of_process ran]
  obtain ⟨store, held, -, files, -⟩ :=
    files_of_dry_run direct named wrapped (located ▸ vacant) succeeds
  have same : store = (pipeline.processInMemory source).2 := (congrArg Prod.snd held).symm
  refine ⟨direct, named, wrapped, located, vacant, succeeds, store, held, located ▸ files, ?_, ?_, ?_⟩
  · rw [same]
    decide +kernel
  · decide +kernel
  · decide +kernel

end Pipeline

end SchemaClasses
