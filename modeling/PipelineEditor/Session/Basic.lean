import PipelineEditor.Event
import PipelineEditor.Message
import PipelineEditor.Pipeline.Basic
import PipelineEditor.Session.Opening
import PipelineEditor.Summary

/-! Editing sessions: one open pipeline, the panels that show it, and what they share. -/
namespace PipelineEditor

/-- A panel over the canvas. It shows the pipeline's metadata and artifact as they were when it was
last rebuilt; while `expanded`, its metadata are a draft to be saved or reset. -/
structure Panel where
  metadata : Metadata
  settingsVisible : Bool
  artifact : Artifact
  description : Summary
  expanded : Bool
  invalidName : Bool
  /-- The name of the pipeline that a copy was made of, until the editor is opened. -/
  clonedFrom : Option String
  /-- The handle of the latest request for the focus, while it is waited for. -/
  awaited : Option Handle
  focusReady : Bool
  /-- Whether the pipeline has changed since the panel was last in step with it. -/
  stale : Bool
deriving DecidableEq

/-- Who is told of every change of the pipeline: a panel, or an observer outside. -/
inductive Listener
  | panel (index : Nat)
  | observer (index : Nat)
deriving DecidableEq, Repr

/-- What was asked of others in the course of a session. -/
inductive Trace
  | deferred (handle : Handle)
  | cancelled (handle : Handle)
  | notified (listener : Listener) (name : String) (stages : Nat)
deriving DecidableEq, Repr

/-- The request that the export window shows: the pipeline with and without its layout, and the
document of the latter. -/
structure ExportRequest where
  display : Pipeline
  exported : Pipeline
  document : String
deriving DecidableEq

/-- The pipeline that was published last. The time of the publication, which nothing reads, is left
out. -/
structure Published where
  name : String
  pipeline : Pipeline
deriving DecidableEq

/-- A session. Panels keep their places in the list when others are dropped. Drafts stand without the
numbers and the times that they are saved under, which nothing reads. -/
structure Session where
  pipeline : Pipeline
  listeners : List Listener
  console : List Message
  drafts : List Pipeline
  published : Option Published
  selected : Option StageId
  exportRequest : Option ExportRequest
  panels : List (Option Panel)
  deferral : Deferral
  queue : EventQueue
  journal : List Trace

namespace Session

/-- The live panel of a number. -/
def panel? (s : Session) (i : Nat) : Option Panel :=
  s.panels[i]?.join

/-- Changes a live panel. -/
def modifyPanel (s : Session) (i : Nat) (f : Panel → Panel) : Session :=
  { s with panels := s.panels.modify i (Option.map f) }

theorem panel?_modifyPanel (s : Session) (i j : Nat) (f : Panel → Panel) :
    (s.modifyPanel i f).panel? j = if i = j then (s.panel? j).map f else s.panel? j := by
  unfold modifyPanel panel?
  rw [List.getElem?_modify]
  by_cases h : i = j <;> cases s.panels[j]? <;> simp [h]

/-- Adds to the journal. -/
def note (s : Session) (t : Trace) : Session :=
  { s with journal := s.journal ++ [t] }

/-- Puts an event into the queue, if there is room. -/
def post (s : Session) (e : Event) : Session :=
  { s with queue := s.queue.post e }

/-- The number of observers. -/
def observers (s : Session) : Nat :=
  s.listeners.countP fun l => match l with
    | .observer _ => true
    | .panel _ => false

end Session
end PipelineEditor
