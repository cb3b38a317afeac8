import SchemaClasses.Proofs.Output.Store
import SchemaClasses.Proofs.Run.Writing

set_option autoImplicit false

namespace SchemaClasses

namespace Writer

variable {σ : Type}

def call (writer : Writer (StateM σ)) (artifact : Artifact) (state : σ) :
    Except Failure Unit × σ :=
  (writer artifact.path artifact.content).run.run state

/-- Accepts the artifacts in order, which takes it from the first state to the second. -/
inductive Takes (writer : Writer (StateM σ)) : List Artifact → σ → σ → Prop where
  | none (state : σ) : Takes writer [] state state
  | next {artifact : Artifact} {rest : List Artifact} {state middle last : σ}
      (accepted : writer.call artifact state = (.ok (), middle))
      (later : Takes writer rest middle last) : Takes writer (artifact :: rest) state last

/-- Notes every artifact it is handed, also those it refuses. -/
def recorded (writer : Writer (StateM σ)) : Writer (StateM (List Artifact × σ)) :=
  fun path content => ExceptT.mk fun (calls, state) =>
    let (result, state) := writer.call ⟨path, content⟩ state
    (result, (calls ++ [⟨path, content⟩], state))

theorem call_recorded (writer : Writer (StateM σ)) (artifact : Artifact) (calls : List Artifact)
    (state : σ) : writer.recorded.call artifact (calls, state) =
      ((writer.call artifact state).1, (calls ++ [artifact], (writer.call artifact state).2)) :=
  rfl

theorem Takes.recorded {writer : Writer (StateM σ)} {artifacts : List Artifact} {state last : σ}
    (takes : writer.Takes artifacts state last) (calls : List Artifact) :
    writer.recorded.Takes artifacts (calls, state) (calls ++ artifacts, last) := by
  induction takes generalizing calls with
  | none state =>
    rw [List.append_nil]
    exact .none _
  | @next artifact rest state middle last accepted later ih =>
    have called : writer.recorded.call artifact (calls, state) =
        (.ok (), (calls ++ [artifact], middle)) := by
      rw [call_recorded, accepted]
    have rest := ih (calls ++ [artifact])
    rw [List.append_assoc, List.singleton_append] at rest
    exact .next called rest

theorem call_limited_zero (writer : Writer (StateM σ)) (artifact : Artifact) (state : σ) :
    writer.limited.call artifact (0, state) = (.error ⟨[], .storageFull⟩, (0, state)) :=
  rfl

theorem call_limited_succ (writer : Writer (StateM σ)) (artifact : Artifact) (left : Nat)
    (state : σ) : writer.limited.call artifact (left + 1, state) =
      ((writer.call artifact state).1, (left, (writer.call artifact state).2)) :=
  rfl

theorem Takes.limited {writer : Writer (StateM σ)} {artifacts : List Artifact} {state last : σ}
    (takes : writer.Takes artifacts state last) (left : Nat) :
    writer.limited.Takes artifacts (left + artifacts.length, state) (left, last) := by
  induction takes with
  | none state => exact .none _
  | @next artifact rest state middle last accepted later ih =>
    have called : writer.limited.call artifact (left + (artifact :: rest).length, state) =
        (.ok (), (left + rest.length, middle)) := by
      rw [List.length_cons, ← Nat.add_assoc, call_limited_succ, accepted]
    exact .next called ih

end Writer

namespace Store

theorem takes_writer (artifacts : List Artifact) (store : Store) :
    Store.writer.Takes artifacts store (store.putAll artifacts) := by
  induction artifacts generalizing store with
  | nil => exact .none store
  | cons artifact rest ih => exact .next rfl (ih (store.put artifact.path artifact.content))

end Store

namespace Delivery

variable {σ : Type}

theorem run_perform (writer : Writer (StateM σ)) (delivery : Delivery) (state : σ) :
    (delivery.perform writer).run.run state =
      ((writer.call delivery.artifact state).1.mapError (Failure.during delivery.activity),
        (writer.call delivery.artifact state).2) :=
  rfl

theorem run_forM_cons (writer : Writer (StateM σ)) (delivery : Delivery) (rest : List Delivery)
    (state : σ) : ((delivery :: rest).forM (perform writer)).run.run state =
      match (delivery.perform writer).run.run state with
      | (.ok (), middle) => (rest.forM (perform writer)).run.run middle
      | (.error failure, last) => (.error failure, last) := by
  rw [List.forM_eq_forM, List.forM_cons, ExceptT.run_bind, StateT.run_bind]
  rcases (delivery.perform writer).run.run state with ⟨_ | _, middle⟩ <;> rfl

theorem run_forM_of_takes {writer : Writer (StateM σ)} {deliveries : List Delivery}
    {state last : σ} (takes : writer.Takes (deliveries.map artifact) state last) :
    (deliveries.forM (perform writer)).run.run state = (.ok (), last) := by
  induction deliveries generalizing state with
  | nil =>
    cases takes
    rfl
  | cons delivery rest ih =>
    cases takes with
    | next accepted later =>
      rw [run_forM_cons, run_perform, accepted]
      exact ih later

theorem takes_of_run_forM {writer : Writer (StateM σ)} {deliveries : List Delivery} {state last : σ}
    (ended : (deliveries.forM (perform writer)).run.run state = (.ok (), last)) :
    writer.Takes (deliveries.map artifact) state last := by
  induction deliveries generalizing state with
  | nil =>
    cases ended
    exact .none last
  | cons delivery rest ih =>
    rw [run_forM_cons, run_perform] at ended
    rcases called : writer.call delivery.artifact state with ⟨_ | _, middle⟩
    · rw [called] at ended
      cases ended
    · rw [called] at ended
      exact .next called (ih ended)

theorem run_forM_of_refused {writer : Writer (StateM σ)} {before : List Delivery}
    (after : List Delivery) {delivery : Delivery} {state middle last : σ} {failure : Failure}
    (takes : writer.Takes (before.map artifact) state middle)
    (refused : writer.call delivery.artifact middle = (.error failure, last)) :
    ((before ++ delivery :: after).forM (perform writer)).run.run state =
      (.error (failure.during delivery.activity), last) := by
  induction before generalizing state with
  | nil =>
    cases takes
    rw [List.nil_append, run_forM_cons, run_perform, refused]
    rfl
  | cons first rest ih =>
    cases takes with
    | next accepted later =>
      rw [List.cons_append, run_forM_cons, run_perform, accepted]
      exact ih later

theorem exists_calls (writer : Writer (StateM σ)) (deliveries : List Delivery)
    (calls : List Artifact) (state : σ) : ∃ handed, handed <+: deliveries.map artifact ∧
      ((deliveries.forM (perform writer.recorded)).run.run (calls, state)).2.1 = calls ++ handed := by
  induction deliveries generalizing calls state with
  | nil => exact ⟨[], List.prefix_refl [], (List.append_nil calls).symm⟩
  | cons delivery rest ih =>
    rw [run_forM_cons, run_perform, Writer.call_recorded]
    rcases writer.call delivery.artifact state with ⟨_ | _, middle⟩
    · exact ⟨[delivery.artifact], by simp, rfl⟩
    · obtain ⟨handed, leads, noted⟩ := ih (calls ++ [delivery.artifact]) middle
      refine ⟨delivery.artifact :: handed, by simpa using leads, noted.trans ?_⟩
      rw [List.append_assoc, List.singleton_append]

end Delivery

namespace Scan

variable {m : Type → Type} [Monad m] {α : Type}

theorem visit_eq [LawfulMonad m] (onClass : ClassBlock → m α) (state : ScanState)
    (lines : List SourceLine) : visit onClass state lines = do
      let results ← (resume state lines).classes.mapM onClass
      return (resume state lines, results) := by
  induction lines generalizing state with
  | nil => cases state <;> simp [visit, resume, finish]
  | cons line lines ih => simp [visit, ih, resume, append]

end Scan

namespace Pipeline

variable {m : Type → Type} [Monad m]

/-- The run in one pass over the lines: a wrapper is written at the line that closes its class. -/
def processWhileScanning (pipeline : Pipeline) (writer : Writer m) (source : Text) :
    ExceptT Failure m Report := do
  let passes := Passes.ofSource pipeline.settings source
  Failure.within (.writeCombined pipeline.combinedPath)
    (writer pipeline.combinedPath passes.expanded.text)
  let (scan, wrappers) ← Scan.visit (pipeline.style.emit writer) .outside
    (SourceLine.split passes.stripped.text)
  return { passes with scan := scan }.report (pipeline.combinedPath :: wrappers)

variable [LawfulMonad m]

theorem process_eq_whileScanning (pipeline : Pipeline) (writer : Writer m) (source : Text) :
    pipeline.process writer source = pipeline.processWhileScanning writer source := by
  simp only [processWhileScanning, Scan.visit_eq, bind_assoc, pure_bind]
  rfl

theorem run_process_of_takes {σ : Type} (pipeline : Pipeline) {writer : Writer (StateM σ)}
    {source : Text} {start last : σ} (takes : writer.Takes (pipeline.artifacts source) start last) :
    (pipeline.process writer source).run.run start = (.ok (pipeline.report source), last) := by
  rw [← map_artifact_deliveries] at takes
  rw [process_eq_deliveries, ExceptT.run_bind, StateT.run_bind, Delivery.run_forM_of_takes takes]
  rfl

theorem takes_of_process {σ : Type} {pipeline : Pipeline} {writer : Writer (StateM σ)}
    {source : Text} {start last : σ} {answer : Report}
    (succeeds : (pipeline.process writer source).run.run start = (.ok answer, last)) :
    writer.Takes (pipeline.artifacts source) start last := by
  rw [process_eq_deliveries, ExceptT.run_bind, StateT.run_bind] at succeeds
  rw [← map_artifact_deliveries]
  rcases ended : ((pipeline.deliveries source).forM (Delivery.perform writer)).run.run start with
    ⟨_ | _, middle⟩
  · rw [ended] at succeeds
    cases succeeds
  · rw [ended] at succeeds
    cases succeeds
    exact Delivery.takes_of_run_forM ended

theorem run_process_of_refused {σ : Type} (pipeline : Pipeline) {writer : Writer (StateM σ)}
    {source : Text} {k : Nat} (inRun : k < (pipeline.deliveries source).length)
    {start before last : σ} {failure : Failure}
    (takes : writer.Takes ((pipeline.artifacts source).take k) start before)
    (refused : writer.call (pipeline.deliveries source)[k].artifact before = (.error failure, last)) :
    (pipeline.process writer source).run.run start =
      (.error (failure.during (pipeline.deliveries source)[k].activity), last) := by
  rw [← map_artifact_deliveries, ← List.map_take] at takes
  -- The deliveries are those before the refused one, that one, and those behind it.
  have ended := Delivery.run_forM_of_refused ((pipeline.deliveries source).drop (k + 1)) takes
    refused
  rw [List.getElem_cons_drop, List.take_append_drop] at ended
  rw [process_eq_deliveries, ExceptT.run_bind, StateT.run_bind, ended]
  rfl

theorem calls_isPrefix {σ : Type} (pipeline : Pipeline) (writer : Writer (StateM σ)) (source : Text)
    (start : σ) : ((pipeline.process writer.recorded source).run.run ([], start)).2.1 <+:
      pipeline.artifacts source := by
  obtain ⟨handed, leads, noted⟩ :=
    Delivery.exists_calls writer (pipeline.deliveries source) [] start
  rw [map_artifact_deliveries] at leads
  rw [List.nil_append] at noted
  rw [process_eq_deliveries, ExceptT.run_bind, StateT.run_bind]
  generalize ((pipeline.deliveries source).forM (Delivery.perform writer.recorded)).run.run
    ([], start) = outcome at noted
  rcases outcome with ⟨_ | _, calls, last⟩ <;> exact noted ▸ leads

theorem refused_write_ends_run (pipeline : Pipeline) (source : Text) :
    let deliveries := pipeline.deliveries source
    let writes := deliveries.map Delivery.artifact
    let combined := (Passes.ofSource pipeline.settings source).expanded.text
    let report := pipeline.report source
    deliveries = ⟨.writeCombined pipeline.combinedPath, ⟨pipeline.combinedPath, combined⟩⟩ ::
        report.classes.map (fun block =>
          ⟨.writeWrapper block.name, pipeline.style.artifact block⟩) ∧
    report.writtenFiles = writes.map Artifact.path ∧
    (∀ {m : Type → Type} [Monad m] [LawfulMonad m] (accept : Path → Text → m Unit),
      (pipeline.process (Writer.accepting accept) source).run = do
        writes.forM (Artifact.handTo accept)
        return .ok report) ∧
    (∀ {m : Type → Type} [Monad m] [LawfulMonad m] (writer : Writer m),
      pipeline.process writer source = pipeline.processWhileScanning writer source) ∧
    (∀ {σ : Type} (writer : Writer (StateM σ)) (start : σ),
      (∀ (k : Nat) (inRun : k < deliveries.length) (before last : σ) (failure : Failure),
        writer.Takes (writes.take k) start before →
        writer.call deliveries[k].artifact before = (.error failure, last) →
        (pipeline.process writer.recorded source).run.run ([], start) =
          (.error (failure.during deliveries[k].activity), (writes.take (k + 1), last))) ∧
      ∀ last, writer.Takes writes start last →
        (pipeline.process writer.recorded source).run.run ([], start) =
          (.ok report, (writes, last))) ∧
    ∀ k, (pipeline.process Store.writer.limited source).run.run (k, .empty) =
      if inRun : k < deliveries.length then
        (.error ⟨[deliveries[k].activity], .storageFull⟩,
          (0, Store.empty.putAll (writes.take k)))
      else (.ok report, (k - deliveries.length, Store.empty.putAll writes)) := by
  intro deliveries writes combined report
  have listed : writes = pipeline.artifacts source := map_artifact_deliveries pipeline source
  have sizes : writes.length = deliveries.length := List.length_map ..
  refine ⟨rfl, congrArg (List.map Artifact.path) listed.symm, ?_, ?_, ?_, ?_⟩
  · intro m _ _ accept
    rw [run_process_accepting, listed, artifacts, List.forM_eq_forM, List.forM_cons, bind_assoc]
    rfl
  · exact fun writer => process_eq_whileScanning pipeline writer source
  · intro σ writer start
    constructor
    · intro k inRun before last failure takes refused
      have noted := takes.recorded []
      rw [List.nil_append, listed] at noted
      have called : writer.recorded.call deliveries[k].artifact (writes.take k, before) =
          (.error failure, (writes.take k ++ [deliveries[k].artifact], last)) := by
        rw [Writer.call_recorded, refused]
      have inWrites : k < writes.length := sizes ▸ inRun
      have longer : writes.take k ++ [deliveries[k].artifact] = writes.take (k + 1) := by
        rw [List.take_succ_eq_append_getElem inWrites, List.getElem_map]
      rw [← longer]
      exact run_process_of_refused pipeline inRun noted (listed ▸ called)
    · intro last takes
      have noted := takes.recorded []
      rw [List.nil_append] at noted
      exact run_process_of_takes pipeline (listed ▸ noted)
  · intro k
    split
    · rename_i inRun
      have takes := (Store.takes_writer (writes.take k) .empty).limited 0
      have size : (writes.take k).length = k := List.length_take_of_le (by omega)
      rw [Nat.zero_add, size, listed] at takes
      rw [listed]
      exact run_process_of_refused pipeline inRun takes
        (Writer.call_limited_zero Store.writer _ _)
    · rename_i beyond
      have takes := (Store.takes_writer writes .empty).limited (k - deliveries.length)
      rw [sizes, Nat.sub_add_cancel (by omega)] at takes
      exact run_process_of_takes pipeline (listed ▸ takes)

theorem third_write_refused :
    let pipeline : Pipeline := ⟨.standard, standardOutputFile, ⟨"out".toList⟩, .builtin⟩
    let source := ("public partial class A\n\x7b\n\x7d\npublic partial class B\npublic int X;\n" ++
      "public partial class A\n\x7d\n\x7b\npublic partial class C\n\x7b").toList
    let writes := (pipeline.deliveries source).map Delivery.artifact
    let left := Store.empty.putAll (writes.take 2)
    (pipeline.deliveries source).length = 4 ∧
    Store.writer.limited.Takes (writes.take 2) (2, .empty) (0, left) ∧
    ∃ refused, writes[2]? = some refused ∧
      Store.writer.limited.call refused (0, left) = (.error ⟨[], .storageFull⟩, (0, left)) ∧
      (pipeline.process Store.writer.limited.recorded source).run.run ([], (2, .empty)) =
        (.error ⟨[.writeWrapper "B".toList], .storageFull⟩, (writes.take 3, (0, left))) := by
  intro pipeline source writes left
  have count : (pipeline.deliveries source).length = 4 := by decide +kernel
  have third : (pipeline.deliveries source)[2]?.map Delivery.activity =
      some (.writeWrapper "B".toList) := by decide +kernel
  have inRun : 2 < (pipeline.deliveries source).length := by omega
  have inWrites : 2 < writes.length := List.length_map (f := Delivery.artifact) ▸ inRun
  rw [List.getElem?_eq_getElem inRun] at third
  have takes := (Store.takes_writer (writes.take 2) .empty).limited 0
  rw [Nat.zero_add, List.length_take_of_le (by omega)] at takes
  have run := ((refused_write_ends_run pipeline source).2.2.2.2.1 Store.writer.limited
    (2, .empty)).1 2 inRun (0, left) (0, left) ⟨[], .storageFull⟩ takes rfl
  rw [Option.some.inj third] at run
  exact ⟨count, takes, writes[2], List.getElem?_eq_getElem inWrites, rfl, run⟩

end Pipeline

end SchemaClasses
