import PipelineEditor.Codec.Document
import PipelineEditor.Codec.Record
import PipelineEditor.Instant
import PipelineEditor.Message
import PipelineEditor.Number.Shortest
import PipelineEditor.Pipeline.Basic
import PipelineEditor.Uuid

/-! The JSON forms of pipelines, their parts, and the records kept of them. -/
namespace PipelineEditor

/-- Coordinates are numbers; an infinite one is written as null, which is no number. -/
def Number.Single.codec : Codec Number.Single where
  read
    | .number d => match d.toSingle? with
      | some x => .ok x
      | none => .error .malformed
    | _ => .error .malformed
  write x := match x.toDecimal? with
    | some d => .number d
    | none => .null

namespace Scope

def wireName : Scope → String
  | .system => "SYSTEM"
  | .user => "USER"

def variants : List (String × Scope) :=
  [Scope.system, .user].map fun s => (s.wireName, s)

def codec : Codec Scope :=
  .oneOf variants wireName

end Scope

def Artifact.codec : Codec Artifact :=
  .record
    (.field (.required "name" .text) <| .field (.required "version" .text) <|
      .field (.withDefault "scope" Scope.codec .system) .done)
    (fun (name, version, scope, ()) => ⟨name, version, scope⟩)
    (fun a => (a.name, a.version, a.scope, ()))

def StageId.codec : Codec StageId :=
  Codec.int64.map StageId.mk StageId.value

def Plugin.codec : Codec Plugin :=
  .record
    (.field (.required "name" .text) <| .field (.required "type" .text) .done)
    (fun (name, kind, ()) => ⟨name, kind⟩)
    (fun p => (p.name, p.kind, ()))

def Stage.codec : Codec Stage :=
  .record
    (.field (.required "id" StageId.codec) <| .field (.required "name" .text) <|
      .field (.required "plugin" Plugin.codec) <|
      .field (.omittable "properties" (.table .text) .empty Table.isEmpty) .done)
    (fun (id, name, plugin, properties, ()) => ⟨id, name, plugin, properties⟩)
    (fun s => (s.id, s.name, s.plugin, s.properties, ()))

def Connection.codec : Codec Connection :=
  .record
    (.field (.required "from" .text) <| .field (.required "to" .text) .done)
    (fun (source, target, ()) => ⟨source, target⟩)
    (fun c => (c.source, c.target, ()))

def Graph.codec : Codec Graph :=
  .record
    (.field (.withDefault "stages" (.list Stage.codec) []) <|
      .field (.withDefault "connections" (.list Connection.codec) []) .done)
    (fun (stages, connections, ()) => ⟨stages, connections⟩)
    (fun g => (g.stages, g.connections, ()))

def Position.codec : Codec Position :=
  .record
    (.field (.required "x" Number.Single.codec) <|
      .field (.required "y" Number.Single.codec) .done)
    (fun (x, y, ()) => ⟨x, y⟩)
    (fun p => (p.x, p.y, ()))

def Layout.codec : Codec Layout :=
  .record
    (.field (.withDefault "positions" (.table Position.codec) .empty) .done)
    (fun (positions, ()) => ⟨positions⟩)
    (fun l => (l.positions, ()))

def Metadata.codec : Codec Metadata :=
  .record
    (.field (.required "name" .text) <| .field (.required "description" .text) .done)
    (fun (name, description, ()) => ⟨name, description⟩)
    (fun m => (m.name, m.description, ()))

namespace Pipeline

def codec : Codec Pipeline :=
  .record
    (.field (.withDefault "name" .text "") <| .field (.withDefault "description" .text "") <|
      .field (.required "artifact" Artifact.codec) <|
      .field (.withDefault "config" Graph.codec .empty) <|
      .field (.omittable "__ui__" (.optional Layout.codec) none Option.isNone) .done)
    (fun (name, description, artifact, graph, layout, ()) =>
      ⟨name, description, artifact, graph, layout⟩)
    (fun p => (p.name, p.description, p.artifact, p.graph, p.layout, ()))

/-- Reads the document of a pipeline. -/
def ofDocument (text : String) : Except ReadError Pipeline :=
  codec.decode text

/-- The document of a pipeline, on indented lines. -/
def document (p : Pipeline) : String :=
  codec.encodePretty p

end Pipeline

namespace MessageKind

def wireName : MessageKind → String
  | .success => "success"
  | .error => "error"
  | .info => "info"
  | .missingName => "MISSING-NAME"
  | .invalidName => "INVALID-NAME"
  | .noStages => "NO-STAGES"

def variants : List (String × MessageKind) :=
  [MessageKind.success, .error, .info, .missingName, .invalidName, .noStages].map
    fun k => (k.wireName, k)

def codec : Codec MessageKind :=
  .oneOf variants wireName

end MessageKind

def Message.codec : Codec Message :=
  .record
    (.field (.required "type" MessageKind.codec) <| .field (.required "content" .text) .done)
    (fun (kind, content, ()) => ⟨kind, content⟩)
    (fun m => (m.kind, m.content, ()))

/-- The identity of a saved draft. -/
structure DraftId where
  uuid : Uuid
deriving DecidableEq

def DraftId.codec : Codec DraftId :=
  (Codec.textForm Uuid.parse? Uuid.text).map DraftId.mk DraftId.uuid

def Instant.codec : Codec Instant :=
  .textForm Instant.parse? Instant.text

/-- A saved draft of a pipeline. -/
structure SavedDraft where
  id : DraftId
  savedAt : Instant
  pipeline : Pipeline
deriving DecidableEq

def SavedDraft.codec : Codec SavedDraft :=
  .record
    (.field (.required "draft_id" DraftId.codec) <| .field (.required "saved_at" Instant.codec) <|
      .field (.required "config" Pipeline.codec) .done)
    (fun (id, savedAt, pipeline, ()) => ⟨id, savedAt, pipeline⟩)
    (fun d => (d.id, d.savedAt, d.pipeline, ()))

/-- A published pipeline. -/
structure Publication where
  name : String
  publishedAt : Instant
  pipeline : Pipeline
deriving DecidableEq

def Publication.codec : Codec Publication :=
  .record
    (.field (.required "name" .text) <| .field (.required "published_at" Instant.codec) <|
      .field (.required "config" Pipeline.codec) .done)
    (fun (name, publishedAt, pipeline, ()) => ⟨name, publishedAt, pipeline⟩)
    (fun r => (r.name, r.publishedAt, r.pipeline, ()))

end PipelineEditor
