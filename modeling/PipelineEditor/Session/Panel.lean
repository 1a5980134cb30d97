import PipelineEditor.Gesture
import PipelineEditor.Session.Store

/-! What panels do: edit and save metadata, ask for the focus, take in events, and run operations. -/
namespace PipelineEditor

/-- The operations offered over the canvas. -/
inductive Operation
  | settings
  | exportDocument
  | save
  | validate
  | publish
deriving DecidableEq, Repr

namespace Operation

/-- The operations in the order in which they are offered. -/
def all : List Operation := [.settings, .exportDocument, .save, .validate, .publish]

def label : Operation → String
  | .settings => "Settings"
  | .exportDocument => "Export"
  | .save => "Save"
  | .validate => "Validate"
  | .publish => "Publish"

def icon : Operation → String
  | .settings => "fa-sliders"
  | .exportDocument => "icon-export"
  | .save => "icon-savedraft"
  | .validate => "icon-validate"
  | .publish => "icon-publish"

end Operation

namespace Panel

/-- The panel rebuilt from the pipeline. Only what it shows of the pipeline is replaced. -/
def rebuilt (p : Panel) (pipeline : Pipeline) : Panel :=
  { p with metadata := pipeline.metadata, artifact := pipeline.artifact }

/-- The panel in step with the pipeline: rebuilt if the pipeline has changed since. -/
def synced (p : Panel) (pipeline : Pipeline) : Panel :=
  if p.stale then { p with stale := false }.rebuilt pipeline else p

/-- The panel after an event. The focus is due only if it was the latest request for it that fired. -/
def received (p : Panel) (pipeline : Pipeline) : Event → Panel
  | .changed => p.synced pipeline
  | .focusDue h =>
    if p.awaited = some h then { p with awaited := none, focusReady := true } else p
  | .info _ => p
  | .failed _ => p

end Panel

namespace Session

/-- Rebuilds a panel from the pipeline. -/
def rebuild (s : Session) (i : Nat) : Session :=
  s.modifyPanel i fun p => p.rebuilt s.pipeline

/-- Brings a panel in step with the pipeline. -/
def sync (s : Session) (i : Nat) : Session :=
  s.modifyPanel i fun p => p.synced s.pipeline

/-- Hands an event to a panel. -/
def receive (s : Session) (i : Nat) (e : Event) : Session :=
  s.modifyPanel i fun p => p.received s.pipeline e

/-- Whether the name field of a panel should take the focus now. Asking answers it. -/
def takeFocus (s : Session) (i : Nat) : Bool × Session :=
  ((s.panel? i).any (·.focusReady), s.modifyPanel i fun p => { p with focusReady := false })

/-- Gives up a request for the focus of a panel, whether it is waited for or due. -/
def dropFocus (s : Session) (i : Nat) : Session :=
  let awaited := (s.panel? i).bind (·.awaited)
  let s := s.modifyPanel i fun p => { p with focusReady := false, awaited := none }
  match awaited with
  | some h => { s with deferral := s.deferral.cancel h }.note (.cancelled h)
  | none => s

/-- Asks for the focus of a panel's name field after the current frame, in place of an earlier
request. -/
def requestFocus (s : Session) (i : Nat) : Session :=
  let s := s.dropFocus i
  let (h, deferral) := s.deferral.start
  { s with deferral := deferral }.note (.deferred h) |>.modifyPanel i fun p =>
    { p with awaited := some h }

/-- Opens the metadata editor of a panel. The first time after a copy the name field asks for the
focus. -/
def openEditor (s : Session) (i : Nat) : Session :=
  let s := (s.modifyPanel i fun p => { p with expanded := true, invalidName := false }).dropFocus i
  match (s.panel? i).bind (·.clonedFrom) with
  | none => s
  | some _ => (s.modifyPanel i fun p => { p with clonedFrom := none }).requestFocus i

/-- Types into the metadata of a panel. -/
def edit (s : Session) (i : Nat) (m : Metadata) : Session :=
  s.modifyPanel i fun p => { p with metadata := m }

/-- Closes the metadata editor of a panel and gives up what was typed. -/
def reset (s : Session) (i : Nat) : Session :=
  (s.rebuild i).modifyPanel i fun p => { p with expanded := false }

/-- Closes the metadata editor of a panel and gives what was typed to the pipeline. -/
def save (s : Session) (i : Nat) : Session :=
  match s.panel? i with
  | none => s
  | some p =>
    (s.setMetadata p.metadata).modifyPanel i fun p =>
      { p with description := .ofDescription p.metadata.description, expanded := false }

/-- A key or click in the metadata editor: Enter saves and Escape resets. -/
def press (s : Session) (i : Nat) (key : Option Nat) : Gesture × Session :=
  let g := Gesture.fresh key
  if key = some Gesture.enter then (g.consumed, s.save i)
  else if key = some Gesture.escape then (g.consumed, s.reset i)
  else (g, s)

/-- Marks the name of a panel when the console holds a message that finds fault with it. -/
def checkName (s : Session) (i : Nat) : Session :=
  s.modifyPanel i fun p => { p with invalidName := s.console.any (·.kind.isNameError) }

/-- Validates the pipeline for a panel; the console holds the outcome and nothing else. -/
def validateFor (s : Session) (i : Nat) : Session :=
  let (valid, s) := s.clearConsole.validate true
  if valid then s.say [⟨.success, "Validation success! Pipeline " ++ s.pipeline.name ++ " is valid."⟩]
  else s.checkName i

/-- Runs an operation for a panel. -/
def run (s : Session) (i : Nat) : Operation → Session
  | .settings => s.modifyPanel i fun p => { p with settingsVisible := !p.settingsVisible }
  | .exportDocument => s.deselect.showExport s.pipeline.withoutLayout
  | .save => s.saveDraft
  | .validate => s.validateFor i
  | .publish => s.publish.checkName i

/-- Adds a panel, and its listener behind all others. A panel of a copy opens its editor. -/
def addPanel (s : Session) (clonedFrom : Option String) : Session :=
  let i := s.panels.length
  let panel : Panel :=
    { metadata := s.pipeline.metadata
      settingsVisible := false
      artifact := s.pipeline.artifact
      description := ⟨s.pipeline.description, ""⟩
      expanded := false
      invalidName := false
      clonedFrom := clonedFrom
      awaited := none
      focusReady := false
      stale := false }
  let s := { s with panels := s.panels ++ [some panel], listeners := s.listeners ++ [.panel i] }
  if clonedFrom.isSome then s.openEditor i else s

/-- Drops a panel, which gives up its request for the focus. -/
def dropPanel (s : Session) (i : Nat) : Session :=
  let s := s.dropFocus i
  { s with panels := s.panels.modify i fun _ => none }

/-- Lets the deferred actions finish; each posts its event. -/
def finishDeferred (s : Session) : Session :=
  let (fired, deferral) := s.deferral.finish
  fired.foldl (fun s h => s.post (.focusDue h)) { s with deferral := deferral }

/-- Hands events to every panel and brings each in step with the pipeline. -/
def deliver (s : Session) (events : List Event) : Session :=
  (List.range s.panels.length).foldl (fun s i => (events.foldl (fun s e => s.receive i e) s).sync i) s

/-- Drains the queue into the panels. -/
def pump (s : Session) : List Event × Session :=
  let (events, queue) := s.queue.drain
  (events, { s with queue := queue }.deliver events)

/-- A session on an opened pipeline, with one panel. -/
def start (opening : Opening) (capacity : Nat) : Session :=
  let s : Session :=
    { pipeline := opening.pipeline
      listeners := []
      console := []
      drafts := []
      published := none
      selected := none
      exportRequest := none
      panels := []
      deferral := .empty
      queue := .empty capacity
      journal := [] }
  s.addPanel opening.clonedFrom

end Session
end PipelineEditor
