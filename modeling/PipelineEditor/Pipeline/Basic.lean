import PipelineEditor.Number.Single
import PipelineEditor.Table
import PipelineEditor.Text.Blank

/-! Data pipelines: stages that run plugins, connections between them, the artifact that brings the
plugins, and the places of the stages on the canvas. -/
namespace PipelineEditor

/-- Who an artifact is there for. -/
inductive Scope
  | system
  | user
deriving DecidableEq, Repr

/-- The versioned bundle of plugins that a pipeline runs on. -/
structure Artifact where
  name : String
  version : String
  scope : Scope
deriving DecidableEq, Repr

namespace Artifact

/-- The artifact of a new pipeline when the settings name no other. -/
def standard : Artifact := ⟨"cdap-data-pipeline", "4.0.0", .system⟩

/-- An artifact in one line. -/
def display (a : Artifact) : String :=
  let scope := match a.scope with
    | .system => "system"
    | .user => "user"
  a.name ++ " " ++ a.version ++ " (" ++ scope ++ ")"

end Artifact

/-- The number of a stage. -/
structure StageId where
  value : Int64
deriving DecidableEq, Repr

/-- Stages are in the order of their numbers. -/
def StageId.le (a b : StageId) : Bool :=
  a.value ≤ b.value

/-- A plugin by its name and what kind of plugin it is. -/
structure Plugin where
  name : String
  kind : String
deriving DecidableEq, Repr

/-- A step of a pipeline. -/
structure Stage where
  id : StageId
  name : String
  plugin : Plugin
  properties : Table String
deriving DecidableEq

/-- An edge between two stages, by their names. -/
structure Connection where
  source : String
  target : String
deriving DecidableEq, Repr

/-- What a pipeline runs. -/
structure Graph where
  stages : List Stage
  connections : List Connection
deriving DecidableEq

namespace Graph

def empty : Graph := ⟨[], []⟩

end Graph

/-- A place on the canvas. -/
structure Position where
  x : Number.Single
  y : Number.Single
deriving DecidableEq, Repr

/-- The places of stages on the canvas, by stage name. -/
structure Layout where
  positions : Table Position
deriving DecidableEq

namespace Layout

def empty : Layout := ⟨.empty⟩

end Layout

/-- The name and the description of a pipeline. -/
structure Metadata where
  name : String
  description : String
deriving DecidableEq, Repr

/-- A pipeline. The layout is for the editor only and is no part of an exported pipeline. -/
structure Pipeline where
  name : String
  description : String
  artifact : Artifact
  graph : Graph
  layout : Option Layout
deriving DecidableEq

namespace Pipeline

/-- A new pipeline, without name and stages. -/
def empty (artifact : Artifact) : Pipeline :=
  ⟨"", "", artifact, .empty, some .empty⟩

/-- The pipeline as it is exported. -/
def withoutLayout (p : Pipeline) : Pipeline :=
  { p with layout := none }

/-- All but the layout is exported. -/
theorem eq_withoutLayout_iff {p q : Pipeline} :
    q = p.withoutLayout ↔ q.name = p.name ∧ q.description = p.description ∧
      q.artifact = p.artifact ∧ q.graph = p.graph ∧ q.layout = none := by
  obtain ⟨name, description, artifact, graph, layout⟩ := q
  rw [withoutLayout, Pipeline.mk.injEq]

/-- Pipelines are exported alike exactly when they are the same but for their layouts. -/
theorem withoutLayout_eq_iff {p q : Pipeline} :
    p.withoutLayout = q.withoutLayout ↔ p.name = q.name ∧ p.description = q.description ∧
      p.artifact = q.artifact ∧ p.graph = q.graph := by
  rw [eq_withoutLayout_iff]
  exact ⟨fun ⟨name, description, artifact, graph, _⟩ => ⟨name, description, artifact, graph⟩,
    fun ⟨name, description, artifact, graph⟩ => ⟨name, description, artifact, graph, rfl⟩⟩

def metadata (p : Pipeline) : Metadata :=
  ⟨p.name, p.description⟩

/-- The file name proposed for an exported pipeline: its trimmed name, or a general one, and the
name of its artifact. -/
def fileName (p : Pipeline) : String :=
  let name := Text.trim p.name
  (if name.isEmpty then "pipeline" else name) ++ "-" ++ p.artifact.name ++ ".json"

end Pipeline
end PipelineEditor
