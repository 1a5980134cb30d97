import PipelineEditor.Proofs.Session.Frame

/-! The pipeline of a session from one moment to a later one. Stages are added at the end, the
metadata are those given last, and nothing else that is exported is ever changed. -/
namespace PipelineEditor

/-- A pipeline at a later moment: nothing is lost or altered but the metadata and the layout. -/
structure Pipeline.Extends (p q : Pipeline) : Prop where
  artifact : q.artifact = p.artifact
  connections : q.graph.connections = p.graph.connections
  stages : p.graph.stages <+: q.graph.stages

namespace Pipeline.Extends

theorem refl (p : Pipeline) : p.Extends p :=
  ⟨rfl, rfl, List.prefix_rfl⟩

theorem trans {p q r : Pipeline} (h : p.Extends q) (h' : q.Extends r) : p.Extends r :=
  ⟨h'.artifact.trans h.artifact, h'.connections.trans h.connections, h.stages.trans h'.stages⟩

theorem described (p : Pipeline) (m : Metadata) : p.Extends (p.described m) :=
  ⟨rfl, rfl, List.prefix_rfl⟩

theorem withStage (p : Pipeline) (id : StageId) (name : String) (plugin : Plugin) :
    p.Extends (Session.withStage p id name plugin) :=
  ⟨rfl, rfl, List.prefix_append _ _⟩

end Pipeline.Extends

namespace Session

/-- The metadata that a command gives to the pipeline: the draft that a panel saves, or those set. -/
def assigned? (s : Session) : Command → Option Metadata
  | .onPanel i command => if command.saves then (s.panel? i).map (·.metadata) else none
  | .setMetadata m => some m
  | _ => none

/-- The metadata that a row of commands gives to the pipeline, one after the other. -/
def assignments (s : Session) : List Command → List Metadata
  | [] => []
  | c :: cs => (s.assigned? c).toList ++ (s.step c).2.assignments cs

/-! One step. -/

/-- A command describes the pipeline anew, if only as it was, or adds a stage. -/
theorem pipeline_step_cases (s : Session) (c : Command) :
    (∃ m, (s.step c).2.pipeline = s.pipeline.described m) ∨
      ∃ id name plugin, (s.step c).2.pipeline = withStage s.pipeline id name plugin := by
  have same : s.pipeline = s.pipeline.described s.pipeline.metadata := rfl
  rw [pipeline_step_eq]
  cases c with
  | onPanel i command =>
    simp only [pipelineAfter]
    split
    · cases s.panel? i with
      | none => exact .inl ⟨_, same⟩
      | some p => exact .inl ⟨_, rfl⟩
    · exact .inl ⟨_, same⟩
  | setMetadata m => exact .inl ⟨m, rfl⟩
  | addStage name plugin =>
    rw [pipelineAfter]
    cases nextId? s.pipeline.graph.stages with
    | none => exact .inl ⟨_, same⟩
    | some id => exact .inr ⟨id, name, plugin, rfl⟩
  | _ => exact .inl ⟨_, same⟩

theorem extends_step (s : Session) (c : Command) : s.pipeline.Extends (s.step c).2.pipeline := by
  rcases pipeline_step_cases s c with ⟨m, after⟩ | ⟨id, name, plugin, after⟩
  · rw [after]
    exact .described _ m
  · rw [after]
    exact .withStage _ id name plugin

theorem metadata_step (s : Session) (c : Command) :
    (s.step c).2.pipeline.metadata = (s.assigned? c).getD s.pipeline.metadata := by
  rw [pipeline_step_eq]
  cases c with
  | onPanel i command =>
    simp only [pipelineAfter, assigned?]
    split
    · cases s.panel? i <;> rfl
    · rfl
  | addStage name plugin =>
    rw [pipelineAfter]
    cases nextId? s.pipeline.graph.stages <;> rfl
  | _ => rfl

/-! A run. -/

theorem extends_runAll (s : Session) (commands : List Command) :
    s.pipeline.Extends (s.runAll commands).pipeline :=
  runAll_keeps (fun t => s.pipeline.Extends t.pipeline) (fun t c h => h.trans (extends_step t c))
    (.refl _) commands

theorem metadata_runAll (s : Session) (commands : List Command) :
    (s.runAll commands).pipeline.metadata =
      (s.assignments commands).getLastD s.pipeline.metadata := by
  induction commands generalizing s with
  | nil => rfl
  | cons c cs ih =>
    refine (ih (s.step c).2).trans ?_
    rw [metadata_step, assignments]
    cases s.assigned? c with
    | none => rfl
    | some m => exact (List.getLastD_cons ..).symm

theorem pipeline_start (opening : Opening) (capacity : Nat) :
    (start opening capacity).pipeline = opening.pipeline := by
  rw [start_eq, pipeline_step rfl]
  rfl

/-- At every moment of a session the artifact and the connections are those of the opened pipeline,
and the stages of an earlier moment are the first ones of a later moment. Name and description are
those that were saved or set last, and no other command changes them. A command that saves or sets
none and adds no stage leaves the whole pipeline as it is. -/
theorem pipeline_only_extended (opening : Opening) (capacity : Nat) (earlier later : List Command) :
    let s := start opening capacity
    let t := s.runAll earlier
    let u := t.runAll later
    opening.pipeline.Extends t.pipeline ∧ t.pipeline.Extends u.pipeline ∧
      u.pipeline.metadata =
        (s.assignments (earlier ++ later)).getLastD opening.pipeline.metadata ∧
      ∀ c, (u.assigned? c = none → (u.step c).2.pipeline.metadata = u.pipeline.metadata) ∧
        (u.alters c = false → (u.step c).2.pipeline = u.pipeline) := by
  intro s t u
  have opened : s.pipeline = opening.pipeline := pipeline_start opening capacity
  refine ⟨opened ▸ extends_runAll s earlier, extends_runAll t later, ?_, fun c => ⟨fun hc => ?_, ?_⟩⟩
  · rw [← opened, ← metadata_runAll, runAll_append]
  · rw [metadata_step, hc, Option.getD_none]
  · exact pipeline_step

/-- A draft is saved between two stages, and publishing changes nothing of the pipeline. -/
theorem pipeline_only_extended_published :
    let s := start ⟨.empty .standard, none⟩ 4
    let earlier : List Command :=
      [.setMetadata ⟨"sales", ""⟩, .addStage "read" ⟨"csv", "source"⟩, .pump]
    let later : List Command :=
      [.onPanel 0 .openEditor, .onPanel 0 (.edit (some "orders") none), .onPanel 0 (.save none),
        .addStage "write" ⟨"s3", "sink"⟩]
    let t := s.runAll earlier
    let u := t.runAll later
    t.pipeline.Extends u.pipeline ∧
      u.pipeline.graph.stages.map (·.name) = ["read", "write"] ∧
      u.pipeline.metadata = ⟨"orders", ""⟩ ∧ u.alters (.onPanel 0 (.run .publish)) = false ∧
      (u.step (.onPanel 0 (.run .publish))).2.pipeline = u.pipeline := by
  intro s earlier later t u
  obtain ⟨-, extended, metadata, others⟩ :=
    pipeline_only_extended ⟨.empty .standard, none⟩ 4 earlier later
  have kept (c : Command) : u.alters c = false → (u.step c).2.pipeline = u.pipeline := (others c).2
  have last : (s.assignments (earlier ++ later)).getLastD ⟨"", ""⟩ = ⟨"orders", ""⟩ := by
    decide +kernel
  have quiet : u.alters (.onPanel 0 (.run .publish)) = false := by decide +kernel
  exact ⟨extended, by decide +kernel, metadata.trans last, quiet, kept _ quiet⟩

end Session
end PipelineEditor
