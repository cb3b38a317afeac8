import SchemaClasses.Run.Pipeline

set_option autoImplicit false

namespace SchemaClasses

variable {m : Type → Type} [Monad m]

def Writer.accepting (accept : Path → Text → m Unit) : Writer m :=
  fun path content => ExceptT.lift (accept path content)

def Artifact.handTo (accept : Path → Text → m Unit) (artifact : Artifact) : m Unit :=
  accept artifact.path artifact.content

structure Delivery where
  activity : Activity
  artifact : Artifact

def Delivery.perform (writer : Writer m) (delivery : Delivery) : ExceptT Failure m Unit :=
  Failure.within delivery.activity (writer delivery.artifact.path delivery.artifact.content)

def WrapperStyle.delivery (style : WrapperStyle) (block : ClassBlock) : Delivery :=
  ⟨.writeWrapper block.name, style.artifact block⟩

namespace Pipeline

def wrappers (pipeline : Pipeline) (source : Text) : List Artifact :=
  (Passes.ofSource pipeline.settings source).scan.classes.map pipeline.style.artifact

def report (pipeline : Pipeline) (source : Text) : Report :=
  (Passes.ofSource pipeline.settings source).report ((pipeline.artifacts source).map Artifact.path)

def deliveries (pipeline : Pipeline) (source : Text) : List Delivery :=
  let passes := Passes.ofSource pipeline.settings source
  ⟨.writeCombined pipeline.combinedPath, ⟨pipeline.combinedPath, passes.expanded.text⟩⟩ ::
    passes.scan.classes.map pipeline.style.delivery

theorem map_artifact_deliveries (pipeline : Pipeline) (source : Text) :
    (pipeline.deliveries source).map Delivery.artifact = pipeline.artifacts source := by
  simp [deliveries, artifacts, WrapperStyle.delivery, Function.comp_def]

end Pipeline

variable [LawfulMonad m]

theorem Failure.within_lift {α : Type} (activity : Activity) (action : m α) :
    Failure.within activity (ExceptT.lift action) = ExceptT.lift action := by
  have kept (value : α) :
      Except.mapError (Failure.during activity) (.ok value) = .ok value := rfl
  apply ExceptT.ext
  simp [Failure.within, ExceptT.run_adapt, kept]

theorem Delivery.forM_perform_accepting (accept : Path → Text → m Unit)
    (deliveries : List Delivery) :
    deliveries.forM (perform (Writer.accepting accept)) =
      ExceptT.lift ((deliveries.map artifact).forM (Artifact.handTo accept)) := by
  induction deliveries with
  | nil => simp
  | cons delivery rest ih =>
    simp only [List.forM_eq_forM] at ih
    simp only [List.forM_eq_forM, List.forM_cons, List.map_cons, ih, ExceptT.lift_bind, perform,
      Writer.accepting, Failure.within_lift, Artifact.handTo]

theorem WrapperStyle.mapM_emit (style : WrapperStyle) (writer : Writer m)
    (blocks : List ClassBlock) :
    blocks.mapM (style.emit writer) = do
      (blocks.map style.delivery).forM (Delivery.perform writer)
      return blocks.map fun block => (style.artifact block).path := by
  induction blocks with
  | nil => simp
  | cons block blocks ih =>
    rw [List.mapM_cons, ih]
    simp [emit, delivery, Delivery.perform]

namespace Pipeline

theorem process_eq_deliveries (pipeline : Pipeline) (writer : Writer m) (source : Text) :
    pipeline.process writer source = do
      (pipeline.deliveries source).forM (Delivery.perform writer)
      return pipeline.report source := by
  rw [process, WrapperStyle.mapM_emit]
  simp [deliveries, Delivery.perform, report, artifacts, Function.comp_def]

theorem run_process_accepting (pipeline : Pipeline)
    (accept : Path → Text → m Unit) (source : Text) :
    (pipeline.process (Writer.accepting accept) source).run = do
      accept pipeline.combinedPath (Passes.ofSource pipeline.settings source).expanded.text
      (pipeline.wrappers source).forM (Artifact.handTo accept)
      return .ok (pipeline.report source) := by
  rw [process_eq_deliveries, Delivery.forM_perform_accepting, map_artifact_deliveries]
  simp [artifacts, wrappers, Artifact.handTo, Except.map]

end Pipeline

end SchemaClasses
